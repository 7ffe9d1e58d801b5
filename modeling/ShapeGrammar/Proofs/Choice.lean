import Mathlib.Algebra.Order.BigOperators.Group.List
import Mathlib.Order.Interval.Set.Defs
import ShapeGrammar.Proofs.Exact
import ShapeGrammar.Proofs.Fitness

/-!
# Choice by weight

A shape whose running sums are those of its rules divides the numbers below the total
among them: each rule has the draws from the weight of the rules in front of it up to
its own running sum. A rule without weight has none.
-/

set_option autoImplicit false

namespace ShapeGrammar

open Exact

variable {K : Type} [Field K] [LinearOrder K] [FloorRing K] [Functions K]

namespace Rule

def weightBefore (rules : List (Rule K)) (i : Nat) : K := ((rules.take i).map Rule.weight).sum

variable {rules : List (Rule K)} {r : Rule K} {i : Nat}

@[simp] theorem weightBefore_zero (rules : List (Rule K)) : weightBefore rules 0 = 0 := by
  simp [weightBefore]

theorem weightBefore_succ (h : rules[i]? = some r) :
    weightBefore rules (i + 1) = weightBefore rules i + r.weight := by
  rw [weightBefore, List.take_add_one, h, List.map_append, List.sum_append]
  simp [weightBefore]

theorem weightBefore_of_le (h : rules.length ≤ i) :
    weightBefore rules i = (rules.map Rule.weight).sum := by
  rw [weightBefore, List.take_of_length_le h]

theorem getElem?_runningSums (sum : K) (h : i < rules.length) :
    (runningSums sum rules)[i]? = some (sum + weightBefore rules (i + 1)) := by
  induction rules generalizing sum i with
  | nil => simp at h
  | cons r rest ih =>
    cases i with
    | zero => simp [runningSums, weightBefore]
    | succ i =>
      rw [runningSums, List.getElem?_cons_succ, ih _ (Nat.lt_of_succ_lt_succ h)]
      simp [weightBefore, add_assoc]

variable [IsStrictOrderedRing K]

theorem weightBefore_mono (nonneg : ∀ r ∈ rules, 0 ≤ r.weight) : Monotone (weightBefore rules) := by
  apply monotone_nat_of_le_succ
  intro i
  cases h : rules[i]? with
  | none =>
    have past : rules.length ≤ i := List.getElem?_eq_none_iff.mp h
    rw [weightBefore_of_le past, weightBefore_of_le (Nat.le_succ_of_le past)]
  | some r =>
    rw [weightBefore_succ h]
    exact le_add_of_nonneg_right (nonneg r (List.mem_of_getElem? h))

theorem weightBefore_le_sum (nonneg : ∀ r ∈ rules, 0 ≤ r.weight) (i : Nat) :
    weightBefore rules i ≤ (rules.map Rule.weight).sum := by
  rw [← weightBefore_of_le (Nat.le_add_left rules.length i)]
  exact weightBefore_mono nonneg (Nat.le_add_right i rules.length)

end Rule

structure Shape.Weighed (s : Shape K) : Prop where
  sums : s.cumulative = Rule.runningSums 0 s.rules
  nonneg : ∀ r ∈ s.rules, 0 ≤ r.weight

namespace Shape.Weighed

open Rule

variable {s : Shape K} (h : s.Weighed)
include h

theorem length_cumulative : s.cumulative.length = s.rules.length := by
  rw [h.sums, length_runningSums]

theorem getElem?_cumulative {i : Nat} (low : i < s.rules.length) :
    s.cumulative[i]? = some (weightBefore s.rules (i + 1)) := by
  rw [h.sums, getElem?_runningSums 0 low, zero_add]

theorem getElem_cumulative {i : Nat} (low : i < s.cumulative.length) :
    s.cumulative[i] = weightBefore s.rules (i + 1) :=
  Option.some.inj ((List.getElem?_eq_getElem low).symm.trans
    (h.getElem?_cumulative (h.length_cumulative ▸ low)))

theorem getLast?_cumulative (rules : s.rules ≠ []) :
    s.cumulative.getLast? = some (s.rules.map Rule.weight).sum := by
  have positive : 0 < s.rules.length := List.length_pos_iff.mpr rules
  have last : s.rules.length - 1 + 1 = s.rules.length := Nat.sub_add_cancel positive
  rw [List.getLast?_eq_getElem?, h.length_cumulative, h.getElem?_cumulative (by omega), last,
    weightBefore_of_le (Nat.le_refl _)]

theorem totalWeight_eq : s.totalWeight = (s.rules.map Rule.weight).sum := by
  by_cases rules : s.rules = []
  · simp [totalWeight, h.sums, rules, runningSums]
  · rw [totalWeight, h.getLast?_cumulative rules, Option.getD_some]

theorem findIdx?_cumulative (draw : K) (i : Nat) :
    s.cumulative.findIdx? (fun sum => draw < sum) = some i ↔
      i < s.rules.length ∧ draw < weightBefore s.rules (i + 1) ∧
        ∀ j < i, weightBefore s.rules (j + 1) ≤ draw := by
  simp only [List.findIdx?_eq_some_iff_getElem, h.getElem_cumulative, h.length_cumulative,
    decide_eq_true_eq, not_lt, exists_prop]

/-- Below the total, the pick is where the draw is first exceeded. -/
theorem pick_eq_findIdx? {draw : K} (below : draw < s.totalWeight) :
    s.pick draw = s.cumulative.findIdx? fun sum => draw < sum := by
  unfold pick
  by_cases rules : s.rules = []
  · simp [h.sums, rules, runningSums]
  · rw [if_neg (by simpa using rules)]
    cases found : s.cumulative.findIdx? fun sum => draw < sum with
    | some i => rfl
    | none =>
      have last := List.mem_of_getLast? (h.getLast?_cumulative rules)
      rw [← h.totalWeight_eq] at last
      have short := List.findIdx?_eq_none_iff.mp found _ last
      simp [below] at short

theorem exists_pick {draw : K} (nonneg : 0 ≤ draw) (below : draw < s.totalWeight) :
    ∃ i, s.pick draw = some i := by
  unfold pick
  split
  case isTrue empty =>
    rw [h.totalWeight_eq, List.isEmpty_iff.mp empty] at below
    exact absurd below (not_lt.mpr nonneg)
  case isFalse => exact ⟨_, rfl⟩

variable [IsStrictOrderedRing K]

theorem pick_eq_some_iff {draw : K} (nonneg : 0 ≤ draw) (below : draw < s.totalWeight) (i : Nat) :
    s.pick draw = some i ↔ weightBefore s.rules i ≤ draw ∧ draw < weightBefore s.rules (i + 1) := by
  rw [h.pick_eq_findIdx? below, h.findIdx?_cumulative]
  constructor
  · rintro ⟨-, above, others⟩
    refine ⟨?_, above⟩
    cases i with
    | zero => rwa [weightBefore_zero]
    | succ i => exact others i (Nat.lt_succ_self i)
  · rintro ⟨reached, above⟩
    refine ⟨not_le.mp fun past => ?_, above, fun j less => ?_⟩
    · rw [weightBefore_of_le past, ← h.totalWeight_eq] at reached
      exact below.not_ge reached
    · exact (weightBefore_mono h.nonneg less).trans reached

/-- The draws of a rule are an interval as long as its weight. -/
theorem draws_eq {i : Nat} {r : Rule K} (found : s.rules[i]? = some r) :
    {draw | draw ∈ Set.Ico 0 s.totalWeight ∧ s.pick draw = some i} =
      Set.Ico (weightBefore s.rules i) (weightBefore s.rules i + r.weight) := by
  ext draw
  rw [← weightBefore_succ found]
  constructor
  · rintro ⟨⟨nonneg, below⟩, picked⟩
    exact (h.pick_eq_some_iff nonneg below i).mp picked
  · rintro ⟨reached, above⟩
    have nonneg : 0 ≤ draw := by
      rw [← weightBefore_zero s.rules]
      exact (weightBefore_mono h.nonneg (Nat.zero_le i)).trans reached
    have below : draw < s.totalWeight := by
      rw [h.totalWeight_eq]
      exact above.trans_le (weightBefore_le_sum h.nonneg (i + 1))
    exact ⟨⟨nonneg, below⟩, (h.pick_eq_some_iff nonneg below i).mpr ⟨reached, above⟩⟩

theorem exists_draw_iff {i : Nat} {r : Rule K} (found : s.rules[i]? = some r) :
    (∃ draw, 0 ≤ draw ∧ draw < s.totalWeight ∧ s.pick draw = some i) ↔ 0 < r.weight := by
  have draws := h.draws_eq found
  constructor
  · rintro ⟨draw, nonneg, below, picked⟩
    have inside : draw ∈ Set.Ico (weightBefore s.rules i) (weightBefore s.rules i + r.weight) :=
      draws ▸ ⟨⟨nonneg, below⟩, picked⟩
    exact pos_of_lt_add_right (inside.1.trans_lt inside.2)
  · intro positive
    have inside : weightBefore s.rules i ∈
        {draw | draw ∈ Set.Ico 0 s.totalWeight ∧ s.pick draw = some i} :=
      draws ▸ ⟨le_rfl, lt_add_of_pos_right _ positive⟩
    exact ⟨_, inside.1.1, inside.1.2, inside.2⟩

end Shape.Weighed

end ShapeGrammar
