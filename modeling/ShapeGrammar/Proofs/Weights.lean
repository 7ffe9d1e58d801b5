import Mathlib.Algebra.BigOperators.Ring.List
import Mathlib.Tactic.Linarith
import ShapeGrammar.Proofs.Choice
import ShapeGrammar.Proofs.Rationals

/-!
# Weights and percentages

At load a rule with a percentage keeps it, and the others divide what the percentages
leave by their weights, where one that is not positive counts as one. So rules are
chosen as their weights are written, and every rule can be chosen unless percentages
take all.
-/

set_option autoImplicit false

namespace ShapeGrammar

open Exact

variable {K : Type} [Field K] [LinearOrder K] [FloorRing K] [Functions K]

/-! ### Weights as the load makes them -/

theorem Exact.larger_eq_max (a b : K) : Scalar.larger a b = max a b := by
  have same : (b == b) = true := decide_eq_true rfl
  unfold Scalar.larger
  rw [if_pos same]
  split
  case isTrue less => exact (max_eq_left less.le).symm
  case isFalse le => exact (max_eq_right (not_lt.mp le)).symm

namespace Rule

variable {rules : List (Rule K)} {r : Rule K}

theorem totalOf_eq_sum (rules : List (Rule K)) : totalOf rules = (rules.map Rule.weight).sum := by
  have from_ : ∀ sum : K, rules.foldl (fun sum r => sum + r.weight) sum =
      sum + (rules.map Rule.weight).sum := by
    induction rules with
    | nil => simp
    | cons r rest ih =>
      intro sum
      rw [List.foldl_cons, ih, List.map_cons, List.sum_cons, add_assoc]
  rw [totalOf, from_, zero_add]

theorem weight_scaled (share : K) (r : Rule K) :
    (r.scaled share).weight = if r.isPercent then r.weight else r.weight * share := by
  unfold scaled
  split <;> rfl

theorem isPercent_scaled (share : K) (r : Rule K) : (r.scaled share).isPercent = r.isPercent := by
  unfold scaled
  split <;> rfl

theorem scaled_one (r : Rule K) : r.scaled 1 = r := by
  unfold scaled
  split
  · rfl
  · rw [mul_one]

def share (rules : List (Rule K)) : K :=
  if 0 < percentTotal rules ∧ 0 < otherTotal rules then
    max (1 - percentTotal rules) 0 / otherTotal rules
  else 1

theorem shared_eq_map (rules : List (Rule K)) :
    shared rules = rules.map (scaled (share rules)) := by
  unfold shared share
  simp only
  split
  · rw [larger_eq_max]
  · rw [List.map_congr_left fun r _ => scaled_one r, List.map_id']

theorem percentTotal_cons (r : Rule K) (rest : List (Rule K)) :
    percentTotal (r :: rest) = (if r.isPercent then r.weight else 0) + percentTotal rest := by
  simp only [percentTotal, totalOf_eq_sum]
  cases percent : r.isPercent <;> simp [percent]

theorem otherTotal_cons (r : Rule K) (rest : List (Rule K)) :
    otherTotal (r :: rest) = (if r.isPercent then 0 else r.weight) + otherTotal rest := by
  simp only [otherTotal, totalOf_eq_sum]
  cases percent : r.isPercent <;> simp [percent]

theorem percentTotal_scaled (share : K) (rules : List (Rule K)) :
    percentTotal (rules.map (scaled share)) = percentTotal rules := by
  induction rules with
  | nil => rfl
  | cons r rest ih =>
    rw [List.map_cons, percentTotal_cons, percentTotal_cons, ih, isPercent_scaled, weight_scaled]
    cases r.isPercent <;> rfl

theorem repaired_eq (r : Rule K) :
    r.repaired = if 0 < r.weight then r else { r with weight := 1, weightKind := .unstated } := by
  have finite : r.hasWeight = decide (0 < r.weight) := Bool.and_true _
  simp only [repaired, finite, decide_eq_true_eq]

theorem weight_repaired_pos (r : Rule K) : 0 < r.repaired.weight := by
  rw [repaired_eq]
  split
  case isTrue positive => exact positive
  case isFalse => exact one_pos

variable [IsStrictOrderedRing K]

theorem totalOf_pos (positive : ∀ r ∈ rules, 0 < r.weight) {p : Rule K → Bool} (mem : r ∈ rules)
    (chosen : p r = true) : 0 < totalOf (rules.filter p) := by
  rw [totalOf_eq_sum]
  apply List.sum_pos
  · intro x hx
    obtain ⟨other, kept, rfl⟩ := List.mem_map.mp hx
    exact positive other (List.mem_of_mem_filter kept)
  · exact List.ne_nil_of_mem (List.mem_map_of_mem (List.mem_filter.mpr ⟨mem, chosen⟩))

theorem share_nonneg (rules : List (Rule K)) : 0 ≤ share rules := by
  unfold share
  split
  case isTrue both => exact div_nonneg (le_max_right _ _) both.2.le
  case isFalse => exact zero_le_one

/-- The rules without a percentage get something unless percentages take all. -/
theorem share_pos_iff (positive : ∀ r ∈ rules, 0 < r.weight) (mem : r ∈ rules)
    (other : r.isPercent = false) : 0 < share rules ↔ percentTotal rules < 1 := by
  have others : 0 < otherTotal rules :=
    totalOf_pos positive mem (p := fun r => !r.isPercent) (by simp [other])
  by_cases percent : 0 < percentTotal rules
  · rw [share, if_pos ⟨percent, others⟩, div_pos_iff_of_pos_right others, lt_max_iff]
    simp
  · rw [share, if_neg fun both => percent both.1]
    exact iff_of_true one_pos ((not_lt.mp percent).trans_lt one_pos)

/-- Of shared weights none is negative, and nought are those of rules without a
percentage where percentages take all. -/
theorem weight_shared (positive : ∀ r ∈ rules, 0 < r.weight) (mem : r ∈ shared rules) :
    0 ≤ r.weight ∧ (0 < r.weight ↔ r.isPercent = true ∨ percentTotal (shared rules) < 1) := by
  rw [shared_eq_map] at mem ⊢
  obtain ⟨before, had, rfl⟩ := List.mem_map.mp mem
  rw [percentTotal_scaled, weight_scaled, isPercent_scaled]
  have weight := positive before had
  cases percent : before.isPercent with
  | true => simp [weight, weight.le]
  | false =>
    refine ⟨mul_nonneg weight.le (share_nonneg rules), ?_⟩
    simp [mul_pos_iff_of_pos_left weight, share_pos_iff positive had percent]

end Rule

theorem Shape.weight_weighted [IsStrictOrderedRing K] (s : Shape K) {r : Rule K}
    (mem : r ∈ s.weighted.rules) : 0 ≤ r.weight ∧
      (0 < r.weight ↔ r.isPercent = true ∨ Rule.percentTotal s.weighted.rules < 1) := by
  apply Rule.weight_shared _ mem
  intro r mem
  obtain ⟨written, -, rfl⟩ := List.mem_map.mp mem
  exact written.weight_repaired_pos

theorem Shape.weighed_weighted [IsStrictOrderedRing K] (s : Shape K) : s.weighted.Weighed where
  sums := rfl
  nonneg _ mem := (s.weight_weighted mem).1

/-! ### Weights as they are written -/

namespace Weight

/-- The percentage that a rule is given. One that is not positive does not count. -/
def percentage : Weight K → K
  | .percent p => if 0 < p then p else 0
  | _ => 0

/-- The part of a rule in what percentages leave: one where the weight is not stated or
not positive. -/
def part : Weight K → K
  | .unstated => 1
  | .explicit x => if 0 < x then x else 1
  | .percent p => if 0 < p then 0 else 1

theorem percentage_or_part (w : Weight K) : 0 < w.percentage ∧ w.part = 0 ∨ w.percentage = 0 := by
  cases w with
  | unstated => exact .inr rfl
  | explicit x => exact .inr rfl
  | percent p =>
    by_cases positive : 0 < p
    · exact .inl ⟨by simp [percentage, positive], if_pos positive⟩
    · exact .inr (if_neg positive)

theorem percentage_nonneg (w : Weight K) : 0 ≤ w.percentage := by
  rcases w.percentage_or_part with ⟨percent, -⟩ | none
  · exact percent.le
  · exact none.ge

theorem part_pos_iff (w : Weight K) : 0 < w.part ↔ w.percentage = 0 := by
  cases w with
  | unstated => simp [part, percentage]
  | explicit x =>
    simp only [part, percentage, iff_true]
    split
    case isTrue positive => exact positive
    case isFalse => exact one_pos
  | percent p =>
    simp only [part, percentage]
    split
    case isTrue positive => simp [positive.ne']
    case isFalse => simp

theorem part_nonneg (w : Weight K) : 0 ≤ w.part := by
  rcases w.percentage_or_part with ⟨-, none⟩ | none
  · exact none.ge
  · exact (w.part_pos_iff.mpr none).le

def percentages (alternatives : List (Weight K × Body K × Span)) : K :=
  (alternatives.map fun a => a.1.percentage).sum

def parts (alternatives : List (Weight K × Body K × Span)) : K :=
  (alternatives.map fun a => a.1.part).sum

theorem sum_pos [IsStrictOrderedRing K] {f : Weight K → K} (nonneg : ∀ w, 0 ≤ f w)
    {alternatives : List (Weight K × Body K × Span)} {a : Weight K × Body K × Span}
    (mem : a ∈ alternatives) (positive : 0 < f a.1) :
    0 < (alternatives.map fun a => f a.1).sum := by
  have each : ∀ x ∈ alternatives.map fun a => f a.1, 0 ≤ x := by
    intro x hx
    obtain ⟨b, -, rfl⟩ := List.mem_map.mp hx
    exact nonneg b.1
  have member : f a.1 ∈ alternatives.map fun a => f a.1 := List.mem_map.mpr ⟨a, mem, rfl⟩
  exact positive.trans_le (List.single_le_sum each _ member)

end Weight

def Shape.offering (s : Shape K) (alternatives : List (Weight K × Body K × Span)) : Shape K :=
  { s with rules := alternatives.map fun a => .make s.index a.1 a.2.1 a.2.2 }

namespace Rule

variable [IsStrictOrderedRing K]

theorem weight_repaired_make (shape : Nat) (w : Weight K) (body : Body K) (span : Span) :
    (make shape w body span).repaired.weight = w.percentage / 100 + w.part := by
  rw [repaired_eq]
  cases w with
  | unstated => simp [make, Weight.percentage, Weight.part]
  | explicit x =>
    by_cases positive : 0 < x <;> simp [make, Weight.percentage, Weight.part, positive]
  | percent p =>
    by_cases positive : 0 < p <;> simp [make, Weight.percentage, Weight.part, positive]

theorem isPercent_repaired_make (shape : Nat) (w : Weight K) (body : Body K) (span : Span) :
    (make shape w body span).repaired.isPercent = decide (0 < w.percentage) := by
  rw [repaired_eq]
  cases w with
  | unstated => simp [make, Weight.percentage, isPercent]
  | explicit x =>
    by_cases positive : 0 < x <;> simp [make, Weight.percentage, isPercent, positive]
  | percent p =>
    by_cases positive : 0 < p <;> simp [make, Weight.percentage, isPercent, positive]

theorem weight_scaled_make (share : K) (shape : Nat) (w : Weight K) (body : Body K) (span : Span) :
    ((make shape w body span).repaired.scaled share).weight =
      w.percentage / 100 + w.part * share := by
  rw [weight_scaled, weight_repaired_make, isPercent_repaired_make]
  rcases w.percentage_or_part with ⟨percent, none⟩ | none
  · simp [percent, none]
  · simp [none]

end Rule

namespace Shape

variable [IsStrictOrderedRing K] (s : Shape K) (alternatives : List (Weight K × Body K × Span))

theorem percentTotal_offering :
    Rule.percentTotal ((s.offering alternatives).rules.map Rule.repaired) =
      Weight.percentages alternatives / 100 := by
  unfold offering Weight.percentages
  induction alternatives with
  | nil => simp [Rule.percentTotal, Rule.totalOf]
  | cons a rest ih =>
    simp only [List.map_cons, List.sum_cons, add_div, Rule.percentTotal_cons, ih,
      Rule.isPercent_repaired_make, Rule.weight_repaired_make]
    rcases a.1.percentage_or_part with ⟨percent, none⟩ | none
    · simp [percent, none]
    · simp [none]

theorem otherTotal_offering :
    Rule.otherTotal ((s.offering alternatives).rules.map Rule.repaired) =
      Weight.parts alternatives := by
  unfold offering Weight.parts
  induction alternatives with
  | nil => simp [Rule.otherTotal, Rule.totalOf]
  | cons a rest ih =>
    simp only [List.map_cons, List.sum_cons, Rule.otherTotal_cons, ih,
      Rule.isPercent_repaired_make, Rule.weight_repaired_make]
    rcases a.1.percentage_or_part with ⟨percent, none⟩ | none
    · simp [percent, none]
    · simp [none]

def share : K := Rule.share ((s.offering alternatives).rules.map Rule.repaired)

theorem map_weight_offering : (s.offering alternatives).weighted.rules.map Rule.weight =
    alternatives.map fun a => a.1.percentage / 100 + a.1.part * s.share alternatives := by
  rw [weighted, Rule.normalized, Rule.shared_eq_map, ← share]
  simp only [offering, List.map_map]
  exact List.map_congr_left fun a _ => Rule.weight_scaled_make _ _ _ _ _

theorem totalWeight_offering : (s.offering alternatives).weighted.totalWeight =
    Weight.percentages alternatives / 100 + Weight.parts alternatives * s.share alternatives := by
  rw [(weighed_weighted _).totalWeight_eq, map_weight_offering]
  simp only [div_eq_mul_inv, List.sum_map_add, List.sum_map_mul_right, Weight.percentages,
    Weight.parts]

variable {alternatives}

structure Mixed (alternatives : List (Weight K × Body K × Span)) : Prop where
  percent : ∃ a ∈ alternatives, 0 < a.1.percentage
  others : ∃ a ∈ alternatives, a.1.percentage = 0
  atMost : Weight.percentages alternatives ≤ 100

theorem Mixed.parts_pos (mixed : Mixed alternatives) : 0 < Weight.parts alternatives := by
  obtain ⟨a, mem, none⟩ := mixed.others
  exact Weight.sum_pos Weight.part_nonneg mem (a.1.part_pos_iff.mpr none)

theorem Mixed.percentages_pos (mixed : Mixed alternatives) :
    0 < Weight.percentages alternatives := by
  obtain ⟨a, mem, percent⟩ := mixed.percent
  exact Weight.sum_pos Weight.percentage_nonneg mem percent

theorem Mixed.share_eq (mixed : Mixed alternatives) : s.share alternatives =
    (1 - Weight.percentages alternatives / 100) / Weight.parts alternatives := by
  have percent : 0 < Weight.percentages alternatives / 100 := by
    have := mixed.percentages_pos
    positivity
  have left : 0 ≤ 1 - Weight.percentages alternatives / 100 := by
    have := mixed.atMost
    linarith
  rw [share, Rule.share, percentTotal_offering, otherTotal_offering,
    if_pos ⟨percent, mixed.parts_pos⟩, max_eq_left left]

theorem Mixed.totalWeight_eq_one (mixed : Mixed alternatives) :
    (s.offering alternatives).weighted.totalWeight = 1 := by
  rw [totalWeight_offering, mixed.share_eq, mul_div_cancel₀ _ mixed.parts_pos.ne']
  ring

theorem Mixed.weight_eq (mixed : Mixed alternatives) {i : Nat} {a : Weight K × Body K × Span}
    (written : alternatives[i]? = some a) :
    ∃ r, (s.offering alternatives).weighted.rules[i]? = some r ∧
      (∀ p, a.1 = .percent p → 0 < p → r.weight = p / 100) ∧
      (a.1.percentage = 0 → r.weight = (1 - Weight.percentages alternatives / 100) *
        (a.1.part / Weight.parts alternatives)) := by
  have weights := congrArg (·[i]?) (s.map_weight_offering alternatives)
  simp only [List.getElem?_map, written, Option.map_some] at weights
  obtain ⟨r, found, weight⟩ := Option.map_eq_some_iff.mp weights
  refine ⟨r, found, ?_, ?_⟩
  · intro p percent positive
    have own : (Weight.percent p).percentage = p := if_pos positive
    have none : (Weight.percent p).part = 0 := if_pos positive
    rw [weight, percent, own, none, zero_mul, add_zero]
  · intro none
    rw [weight, none, mixed.share_eq, zero_div, zero_add]
    ring

/-- Rules are chosen as their weights say. Below the total, a draw picks the rule whose
running sum is the first to exceed it, so that the draws of a rule are an interval as
long as its weight, and every draw lies in one of them. Where percentages and other
weights are mixed, the total is one: a percentage counts for itself, and the others have
their parts in the rest. -/
theorem choice_follows_weights (s : Shape K) (alternatives : List (Weight K × Body K × Span))
    {shape : Shape K} (loaded : shape = (s.offering alternatives).weighted) :
    (∀ draw, 0 ≤ draw → draw < shape.totalWeight → ∀ i, shape.pick draw = some i ↔
      Rule.weightBefore shape.rules i ≤ draw ∧ draw < Rule.weightBefore shape.rules (i + 1)) ∧
    (∀ i r, shape.rules[i]? = some r →
      {draw | draw ∈ Set.Ico 0 shape.totalWeight ∧ shape.pick draw = some i} =
        Set.Ico (Rule.weightBefore shape.rules i) (Rule.weightBefore shape.rules i + r.weight)) ∧
    (∀ draw ∈ Set.Ico 0 shape.totalWeight, ∃! i, draw ∈
      Set.Ico (Rule.weightBefore shape.rules i) (Rule.weightBefore shape.rules (i + 1))) ∧
    (Mixed alternatives → shape.totalWeight = 1 ∧
      ∀ (i : Nat) (a : Weight K × Body K × Span), alternatives[i]? = some a →
        ∃ r, shape.rules[i]? = some r ∧
          (∀ p, a.1 = .percent p → 0 < p → r.weight = p / 100) ∧
          (a.1.percentage = 0 → r.weight = (1 - Weight.percentages alternatives / 100) *
            (a.1.part / Weight.parts alternatives))) := by
  subst loaded
  have weighed := (s.offering alternatives).weighed_weighted
  refine ⟨fun draw nonneg below => weighed.pick_eq_some_iff nonneg below,
    fun i r => weighed.draws_eq, ?_, ?_⟩
  · rintro draw ⟨nonneg, below⟩
    obtain ⟨i, picked⟩ := weighed.exists_pick nonneg below
    have interval := weighed.pick_eq_some_iff nonneg below
    refine ⟨i, (interval i).mp picked, fun j inside => ?_⟩
    exact Option.some.inj (((interval j).mpr inside).symm.trans picked)
  · exact fun mixed => ⟨mixed.totalWeight_eq_one s, fun i a => mixed.weight_eq s⟩

end Shape

namespace Sample

def drawing (p : Primitive) : Body ℚ := .ofStatements [.replace (head (.primitive p))]

theorem drawing_made (p : Primitive) : ∀ st ∈ (drawing p).statements, st.Made := by
  rintro st (_ | ⟨_, ⟨⟩⟩)
  exact .replace _

def mixture : List (Weight ℚ × Body ℚ × Span) :=
  [(.percent 25, drawing .circle, .none), (.unstated, drawing .square, .none),
    (.percent (-5), drawing .triangle, .none), (.explicit (3 / 2), drawing .circle, .none)]

theorem mixture_mixed : Shape.Mixed mixture where
  percent := ⟨_, .head _, by decide +kernel⟩
  others := ⟨_, .tail _ (.head _), by decide +kernel⟩
  atMost := by decide +kernel

end Sample

theorem Shape.choice_follows_weights_mixture :
    ((declare "dot" 0 false []).offering Sample.mixture).weighted.totalWeight = 1 ∧
    ∃ r, ((declare "dot" 0 false []).offering Sample.mixture).weighted.rules[3]? = some r ∧
      r.weight = 9 / 28 := by
  obtain ⟨-, -, -, mixed⟩ := choice_follows_weights (declare "dot" 0 false []) Sample.mixture rfl
  obtain ⟨total, weights⟩ := mixed Sample.mixture_mixed
  obtain ⟨r, found, -, weight⟩ := weights 3 _ rfl
  rw [Rational.scalar_eq_exact]
  have none : (Weight.explicit (3 / 2 : ℚ)).percentage = 0 := rfl
  have value : (1 - Weight.percentages Sample.mixture / 100) *
      ((Weight.explicit (3 / 2 : ℚ)).part / Weight.parts Sample.mixture) = 9 / 28 := by
    decide +kernel
  exact ⟨total, r, found, (weight none).trans value⟩

/-! ### Rules as they are loaded -/

namespace Rule

variable {α : Type} [Scalar α] {rules rules' : List (Rule α)}

def weighing (r : Rule α) : α × Bool := (r.weight, r.isPercent)

theorem runningSums_congr (same : rules.map weighing = rules'.map weighing) (sum : α) :
    runningSums sum rules = runningSums sum rules' := by
  induction rules generalizing rules' sum with
  | nil =>
    rw [List.map_nil, eq_comm, List.map_eq_nil_iff] at same
    rw [same]
  | cons r rest ih =>
    cases rules' with
    | nil => cases same
    | cons r' rest' =>
      obtain ⟨first, others⟩ := List.cons.inj same
      have weight : r.weight = r'.weight := congrArg Prod.fst first
      rw [runningSums, runningSums, weight, ih others]

theorem percentTotal_congr (same : rules.map weighing = rules'.map weighing) :
    percentTotal rules = percentTotal rules' := by
  have total : ∀ l : List (Rule α), percentTotal l =
      ((l.map weighing).filter Prod.snd).foldl (fun sum w => sum + w.1) 0 := by
    intro l
    rw [List.filter_map, List.foldl_map]
    rfl
  rw [total, total, same]

end Rule

/-- What a load finds out about the names in a rule leaves its weight alone. -/
theorem Draft.map_weighing_resolveShape {α : Type} [Scalar α] (scope : Scope) (i : Nat)
    (s : Shape α) :
    (resolveShape scope i s).rules.map Rule.weighing = s.weighted.rules.map Rule.weighing := by
  apply List.ext_getElem?
  intro j
  simp only [resolveShape, List.getElem?_map, List.getElem?_mapIdx, Option.map_map]
  rfl

variable [IsStrictOrderedRing K]

namespace Draft

variable (scope : Scope) (i : Nat) (s : Shape K)

theorem weight_resolveShape {r : Rule K} (mem : r ∈ (resolveShape scope i s).rules) :
    0 ≤ r.weight ∧ (0 < r.weight ↔
      r.isPercent = true ∨ Rule.percentTotal (resolveShape scope i s).rules < 1) := by
  have weighings := map_weighing_resolveShape scope i s
  have weighed := List.mem_map_of_mem (f := Rule.weighing) mem
  rw [weighings] at weighed
  obtain ⟨normal, mem, same⟩ := List.mem_map.mp weighed
  obtain ⟨weight, percent⟩ := Prod.mk.inj same
  rw [Rule.percentTotal_congr weighings, ← weight, ← percent]
  exact s.weight_weighted mem

theorem weighed_resolveShape : (resolveShape scope i s).Weighed where
  sums := Rule.runningSums_congr (map_weighing_resolveShape scope i s).symm 0
  nonneg _ mem := (weight_resolveShape scope i s mem).1

theorem weighed_of_build {d : Draft K} {g : Grammar K} (built : d.build = .ok g) {i : Nat}
    {shape : Shape K} (loaded : g.shapes[i]? = some shape) : shape.Weighed := by
  obtain ⟨s, -, rfl⟩ := build_shape built loaded
  exact weighed_resolveShape _ i s

/-- A rule of a loaded grammar can be chosen just when its weight is positive. That is so
for rules with a percentage, and for the others as long as the percentages of the shape
leave something. -/
theorem rules_can_be_chosen {d : Draft K} {g : Grammar K} (built : d.build = .ok g) {i : Nat}
    {shape : Shape K} (loaded : g.shapes[i]? = some shape) {j : Nat} {r : Rule K}
    (found : shape.rules[j]? = some r) :
    (0 < r.weight ↔ r.isPercent = true ∨ Rule.percentTotal shape.rules < 1) ∧
      ((∃ draw, 0 ≤ draw ∧ draw < shape.totalWeight ∧ shape.pick draw = some j) ↔
        0 < r.weight) := by
  refine ⟨?_, (weighed_of_build built loaded).exists_draw_iff found⟩
  obtain ⟨s, -, rfl⟩ := build_shape built loaded
  exact (weight_resolveShape _ i s (List.mem_of_getElem? found)).2

end Draft

/-! ### One percentage against the rest -/

namespace Sample

def against (percentage : ℚ) : Draft ℚ :=
  ((Draft.empty.declareShape "dot" false []).1.addRule 0 (.percent percentage)
    (drawing .circle) .none).addRule 0 .unstated (drawing .square) .none

theorem against_drafted (percentage : ℚ) : (against percentage).Drafted := by
  have none : (Draft.empty : Draft ℚ).Drafted := .empty
  exact ((none.declareShape "dot" false []).addRule 0 _ (drawing_made .circle) .none).addRule 0 _
    (drawing_made .square) .none

def loadedAgainst (percentage : ℚ) : Shape ℚ :=
  (against percentage).resolved.shapes.headD (Shape.declare "" 0 false [])

end Sample

open Sample

namespace Draft

theorem rules_can_be_chosen_against :
    (against 25).build = .ok (against 25).resolved ∧
    (against 25).resolved.shapes[0]? = some (loadedAgainst 25) ∧
    ∃ r, (loadedAgainst 25).rules[1]? = some r ∧ r.weight = 3 / 4 ∧
      ∃ draw, 0 ≤ draw ∧ draw < (loadedAgainst 25).totalWeight ∧
        (loadedAgainst 25).pick draw = some 1 := by
  have errors : (against 25).errors = [] := by decide +kernel
  have built := build_eq_ok.mpr ⟨errors, rfl⟩
  have loaded : (against 25).resolved.shapes[0]? = some (loadedAgainst 25) := rfl
  have weights : (loadedAgainst 25).rules[1]?.map Rule.weight = some (3 / 4) := by decide +kernel
  obtain ⟨r, found, weight⟩ := Option.map_eq_some_iff.mp weights
  refine ⟨built, loaded, r, found, weight, ?_⟩
  rw [Rational.scalar_eq_exact] at built loaded ⊢
  have chosen := (rules_can_be_chosen built loaded found).2
  exact chosen.mpr (weight ▸ by norm_num)

/-- A rule of a hundred percent leaves the other with no weight, and no draw comes to it. -/
theorem rule_never_chosen :
    (against 100).Drafted ∧ (against 100).build = .ok (against 100).resolved ∧
    (against 100).resolved.shapes[0]? = some (loadedAgainst 100) ∧
    ∃ r, (loadedAgainst 100).rules[1]? = some r ∧ r.weight = 0 ∧
      ¬∃ draw, 0 ≤ draw ∧ draw < (loadedAgainst 100).totalWeight ∧
        (loadedAgainst 100).pick draw = some 1 := by
  have errors : (against 100).errors = [] := by decide +kernel
  have built := build_eq_ok.mpr ⟨errors, rfl⟩
  have loaded : (against 100).resolved.shapes[0]? = some (loadedAgainst 100) := rfl
  have weights : (loadedAgainst 100).rules[1]?.map Rule.weight = some 0 := by decide +kernel
  obtain ⟨r, found, weight⟩ := Option.map_eq_some_iff.mp weights
  refine ⟨against_drafted 100, built, loaded, r, found, weight, ?_⟩
  rw [Rational.scalar_eq_exact] at built loaded ⊢
  rw [(weighed_of_build built loaded).exists_draw_iff found, weight]
  exact lt_irrefl 0

end Draft

end ShapeGrammar
