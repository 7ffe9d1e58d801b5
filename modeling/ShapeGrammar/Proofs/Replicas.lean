import Mathlib.Algebra.Order.BigOperators.GroupWithZero.List
import Mathlib.Algebra.Order.Ring.Nat
import Mathlib.Data.List.Forall2
import ShapeGrammar.Proofs.Tasks

/-!
# The replicas of a transform

A replica is a choice of one factor from each generator, the factors composed in
the order of the generators. The choices are numbered, so that their order is that
of lists of numbers. Only bundles need an environment: they are evaluated once each,
in order, and the rest is arithmetic.
-/

set_option autoImplicit false

namespace ShapeGrammar

variable {σ α : Type}

theorem Attempt.length_of_mapM {ε ω β γ : Type} {f : β → Attempt ε ω γ} {xs : List β} {ys : List γ}
    {s t : ω} (ran : (xs.mapM f).run s = .ok ys t) : ys.length = xs.length := by
  induction xs generalizing ys s t with
  | nil =>
    rw [List.mapM_nil] at ran
    cases ran
    rfl
  | cons x xs ih =>
    rw [List.mapM_cons] at ran
    obtain ⟨y, u, -, ran⟩ := of_bind_ok ran
    obtain ⟨rest, v, ranRest, ran⟩ := of_bind_ok ran
    cases ran
    exact congrArg Nat.succ (ih ranRest)

namespace Symmetry

def order : Symmetry α → Nat
  | .mods _ => 1
  | .cyclic n => max 1 n
  | .dihedral n => 2 * max 1 n

theorem order_pos (g : Symmetry α) : 0 < g.order := by
  cases g <;> simp only [order] <;> omega

def bundles : List (Symmetry α) → List (Bundle α)
  | [] => []
  | .mods b :: rest => b :: bundles rest
  | .cyclic _ :: rest => bundles rest
  | .dihedral _ :: rest => bundles rest

/-- One number below each of the counts, in every way, the first outermost. -/
def choices : List Nat → List (List Nat)
  | [] => [[]]
  | n :: counts => (List.range n).flatMap fun k => (choices counts).map fun c => k :: c

variable [Scalar α]

def turn (n k : Nat) : Adjustment α :=
  .ofTransform (.rotate ((k : α) * ((360 : Nat) : α) / ((max 1 n : Nat) : α)))

def mirror (n k : Nat) : Adjustment α :=
  .ofTransform (.reflect ((k : α) * ((180 : Nat) : α) / ((max 1 n : Nat) : α)))

/-- The turns come before the mirrors. -/
def turnOrMirror (n k : Nat) : Adjustment α :=
  if k < max 1 n then turn n k else mirror n (k - max 1 n)

def chosen : List (Symmetry α) → List (Adjustment α) → List Nat → List (Adjustment α)
  | .mods _ :: rest, m :: ms, _ :: c => m :: chosen rest ms c
  | .cyclic n :: rest, ms, k :: c => turn n k :: chosen rest ms c
  | .dihedral n :: rest, ms, k :: c => turnOrMirror n k :: chosen rest ms c
  | _, _, _ => []

def replicas (generators : List (Symmetry α)) (ms : List (Adjustment α)) : List (Adjustment α) :=
  (choices (generators.map order)).map fun c =>
    (chosen generators ms c).foldl .andThen .identity

/-! ### Choices -/

theorem mem_choices {counts c : List Nat} :
    c ∈ choices counts ↔ List.Forall₂ (fun k n => k < n) c counts := by
  induction counts generalizing c with
  | nil => simp [choices]
  | cons n counts ih =>
    simp only [choices, List.mem_flatMap, List.mem_range, List.mem_map, ih,
      List.forall₂_cons_right_iff]
    grind

theorem pairwise_choices (counts : List Nat) : (choices counts).Pairwise (fun c d => c < d) := by
  induction counts with
  | nil => exact List.pairwise_singleton _ _
  | cons n counts ih =>
    rw [choices, List.pairwise_flatMap]
    refine ⟨fun k _ => ?_, List.pairwise_lt_range.imp fun {k l} less c hc d hd => ?_⟩
    · refine List.pairwise_map.mpr (ih.imp fun less => ?_)
      exact List.cons_lt_cons_iff.mpr (.inr ⟨rfl, less⟩)
    · obtain ⟨c, -, rfl⟩ := List.mem_map.mp hc
      obtain ⟨d, -, rfl⟩ := List.mem_map.mp hd
      exact List.cons_lt_cons_iff.mpr (.inl less)

example : choices [2, 3] = [[0, 0], [0, 1], [0, 2], [1, 0], [1, 1], [1, 2]] := by decide

theorem length_choices (counts : List Nat) : (choices counts).length = counts.prod := by
  induction counts with
  | nil => rfl
  | cons n counts ih => simp [choices, List.length_flatMap, ih]

omit [Scalar α] in
theorem prod_order_pos (generators : List (Symmetry α)) : 0 < (generators.map order).prod := by
  refine List.prod_pos fun n mem => ?_
  obtain ⟨g, -, rfl⟩ := List.mem_map.mp mem
  exact g.order_pos

theorem length_replicas (generators : List (Symmetry α)) (ms : List (Adjustment α)) :
    (replicas generators ms).length = (generators.map order).prod := by
  rw [replicas, List.length_map, length_choices]

/-! ### Factors -/

theorem rotations_eq (n : Nat) :
    (Adjustment.rotations n : List (Adjustment α)) = (List.range (max 1 n)).map (turn n) := by
  rw [Adjustment.rotations, Nat.max_comm]
  rfl

theorem reflections_eq (n : Nat) :
    (Adjustment.reflections n : List (Adjustment α)) = (List.range (max 1 n)).map (mirror n) := by
  rw [Adjustment.reflections, Nat.max_comm]
  rfl

theorem rotations_append_reflections (n : Nat) :
    (Adjustment.rotations n ++ Adjustment.reflections n : List (Adjustment α)) =
      (List.range (2 * max 1 n)).map (turnOrMirror n) := by
  rw [rotations_eq, reflections_eq, Nat.two_mul, List.range_add, List.map_append, List.map_map]
  congr 1
  · refine List.map_congr_left fun k hk => ?_
    rw [turnOrMirror, if_pos (List.mem_range.mp hk)]
  · refine List.map_congr_left fun k _ => ?_
    rw [Function.comp_apply, turnOrMirror, if_neg (by omega), Nat.add_sub_cancel_left]

theorem length_chosen {generators : List (Symmetry α)} {ms : List (Adjustment α)} {c : List Nat}
    (fits : ms.length = (bundles generators).length) (full : c.length = generators.length) :
    (chosen generators ms c).length = generators.length := by
  induction generators generalizing ms c with
  | nil => simp [chosen]
  | cons g rest ih =>
    obtain ⟨k, c, rfl⟩ := List.exists_cons_of_length_eq_add_one full
    have fullRest : c.length = rest.length := Nat.succ.inj full
    cases g with
    | mods b =>
      obtain ⟨m, ms, rfl⟩ := List.exists_cons_of_length_eq_add_one fits
      exact congrArg Nat.succ (ih (Nat.succ.inj fits) fullRest)
    | cyclic n => exact congrArg Nat.succ (ih fits fullRest)
    | dihedral n => exact congrArg Nat.succ (ih fits fullRest)

/-! ### The product -/

/-- One generator more: its factors become the outermost of the choices that are
still to be made. -/
theorem flatMap_extend (product : List (Adjustment α)) (n : Nat) (f : Nat → Adjustment α)
    (counts : List Nat) {all later : List Nat → List (Adjustment α)}
    (split : ∀ k c, all (k :: c) = f k :: later c) :
    ((extend product ((List.range n).map f)).flatMap fun m =>
        (choices counts).map fun c => (later c).foldl .andThen m) =
      product.flatMap fun m =>
        (choices (n :: counts)).map fun c => (all c).foldl .andThen m := by
  simp only [extend, choices, List.flatMap_assoc, List.flatMap_map, List.map_flatMap, List.map_map,
    Function.comp_def, split, List.foldl_cons]

theorem productFrom_eq (env : Env Stop (Session σ α) α) (generators : List (Symmetry α))
    (product : List (Adjustment α)) :
    productFrom env generators product = do
      let ms ← (bundles generators).mapM env.evalBundle
      return product.flatMap fun m => (choices (generators.map order)).map fun c =>
        (chosen generators ms c).foldl .andThen m := by
  -- Any product may be extended: the choices made so far are already composed in it.
  induction generators generalizing product with
  | nil => simp [productFrom, bundles, choices, chosen]
  | cons g rest ih =>
    cases g with
    | mods b =>
      simp only [productFrom, factors, bundles, List.mapM_cons, ih, bind_assoc, pure_bind]
      refine congrArg _ (funext fun m => congrArg _ (funext fun ms => congrArg pure ?_))
      exact flatMap_extend product 1 (fun _ => m) _ fun _ _ => rfl
    | cyclic n =>
      simp only [productFrom, factors, bundles, ih, pure_bind, rotations_eq]
      refine congrArg _ (funext fun ms => congrArg pure ?_)
      exact flatMap_extend product _ (turn n) _ fun _ _ => rfl
    | dihedral n =>
      simp only [productFrom, factors, bundles, ih, pure_bind, rotations_append_reflections]
      refine congrArg _ (funext fun ms => congrArg pure ?_)
      exact flatMap_extend product _ (turnOrMirror n) _ fun _ _ => rfl

theorem product_eq (env : Env Stop (Session σ α) α) (generators : List (Symmetry α)) :
    product env generators = do
      let ms ← (bundles generators).mapM env.evalBundle
      return replicas generators ms := by
  rw [product, productFrom_eq]
  simp only [List.flatMap_singleton, replicas]

/-- The product is the list of all choices of one factor from each generator, in the
order of their numbers. Each bundle is evaluated once, in its turn, and before any
replica is entered; nothing else is evaluated. -/
theorem product_enumerates (c : Context σ α) (generators : List (Symmetry α)) :
    (product c.env generators = do
      let ms ← (bundles generators).mapM c.env.evalBundle
      return replicas generators ms) ∧
    (choices (generators.map order)).Pairwise (fun choice next => choice < next) ∧
    (∀ choice, choice ∈ choices (generators.map order) ↔
      List.Forall₂ (fun k n => k < n) choice (generators.map order)) ∧
    (∀ s ms t, ((bundles generators).mapM c.env.evalBundle).run s = .ok ms t →
      (∀ choice ∈ choices (generators.map order),
        (chosen generators ms choice).length = generators.length) ∧
      (replicas generators ms).length = (generators.map order).prod ∧
      replicas generators ms ≠ []) ∧
    ∀ (h : Head α) (clone opsOnly : Bool) (body : Entering σ α) (parent : Instance α)
      (follows : Bool),
      c.transform h ⟨generators, clone, opsOnly⟩ body parent follows = (do
        let base ← c.adjust (c.startFrom opsOnly follows parent) h.mods
        let ms ← (bundles generators).mapM c.env.evalBundle
        let saved := (← Attempt.state).random
        let enter := fun i => body i (follows || opsOnly) []
        if clone then Context.cloned saved base enter (replicas generators ms)
        else Context.chained enter base (replicas generators ms)) := by
  refine ⟨product_eq c.env generators, pairwise_choices _, fun _ => mem_choices, ?_, ?_⟩
  · intro s ms t ran
    refine ⟨fun choice mem => ?_, length_replicas generators ms, ?_⟩
    · refine length_chosen (Attempt.length_of_mapM ran) ?_
      rw [(mem_choices.mp mem).length_eq, List.length_map]
    · rw [← List.length_pos_iff, length_replicas]
      exact prod_order_pos generators
  · intro h clone opsOnly body parent follows
    simp only [Context.transform, product_eq, bind_assoc, pure_bind]

end Symmetry

end ShapeGrammar
