import ShapeGrammar.Proofs.Drafting

/-!
# Loaded grammars

A grammar that was built from a draft has the draft's shapes, with their weights
normalized, and the rules of these shapes, with the bodies resolved at their
addresses. What the build found nothing wrong with is read off here.
-/

set_option autoImplicit false

namespace ShapeGrammar

variable {α : Type} [Scalar α]

/-! ### Rules and their weights -/

def Rule.SameBut (r r' : Rule α) : Prop :=
  r'.shape = r.shape ∧ r'.body = r.body ∧ r'.span = r.span

theorem Rule.repaired_same (r : Rule α) : r.SameBut r.repaired := by
  unfold repaired
  split <;> exact ⟨rfl, rfl, rfl⟩

theorem Rule.scaled_same (share : α) (r : Rule α) : r.SameBut (r.scaled share) := by
  unfold scaled
  split <;> exact ⟨rfl, rfl, rfl⟩

theorem Rule.normalized_getElem? {rules : List (Rule α)} {j : Nat} {r' : Rule α}
    (h : (normalized rules)[j]? = some r') : ∃ r, rules[j]? = some r ∧ r.SameBut r' := by
  unfold normalized shared at h
  simp only at h
  split at h
  · simp only [List.getElem?_map, Option.map_eq_some_iff] at h
    obtain ⟨_, ⟨r, found, rfl⟩, rfl⟩ := h
    have repaired := r.repaired_same
    have scaled := scaled_same (Scalar.larger (1 - percentTotal (rules.map Rule.repaired)) 0 /
      otherTotal (rules.map Rule.repaired)) r.repaired
    exact ⟨r, found, scaled.1.trans repaired.1, scaled.2.1.trans repaired.2.1,
      scaled.2.2.trans repaired.2.2⟩
  · simp only [List.getElem?_map, Option.map_eq_some_iff] at h
    obtain ⟨r, found, rfl⟩ := h
    exact ⟨r, found, r.repaired_same⟩

namespace Draft

variable {d : Draft α} {g : Grammar α}

/-! ### Shapes and rules -/

theorem build_shape (hg : d.build = .ok g) {i : Nat} {shape : Shape α}
    (h : g.shapes[i]? = some shape) :
    ∃ s, d.shapes[i]? = some s ∧ shape = resolveShape d.globalScope i s := by
  obtain ⟨-, rfl⟩ := build_eq_ok.mp hg
  simp only [resolved, List.getElem?_mapIdx, Option.map_eq_some_iff] at h
  obtain ⟨s, found, rfl⟩ := h
  exact ⟨s, found, rfl⟩

theorem build_index (hd : d.Drafted) (hg : d.build = .ok g) {i : Nat} {shape : Shape α}
    (h : g.shapes[i]? = some shape) : shape.index = i := by
  obtain ⟨s, found, rfl⟩ := build_shape hg h
  exact hd.regular.index i s found

/-- A rule of a loaded grammar, with the body it had in the draft. -/
structure RuleOf (d : Draft α) (i j : Nat) (shape : Shape α) (rule : Rule α) (b : Body α) :
    Prop where
  body : rule.body = b.resolve d.globalScope false [i, j]
  index : rule.shape = i
  params : b.params = shape.params
  slots : b.slots = Body.countSlots b.params b.statements
  made : ∀ st ∈ b.statements, st.Made
  drafted : ∃ (s : Shape α) (r : Rule α), d.shapes[i]? = some s ∧ s.rules[j]? = some r ∧
    s.isPath = shape.isPath ∧ r.body = b
  cell : rule.cell =
    if shape.isPath && b.isFixed d.globalScope false then some [i, j] else none

/-- Every rule of a loaded grammar was a rule of the draft. -/
theorem build_source (hg : d.build = .ok g) {i j : Nat} {shape : Shape α} {rule : Rule α}
    (h : g.shapes[i]? = some shape) (hr : shape.rules[j]? = some rule) :
    ∃ s r r', d.shapes[i]? = some s ∧ shape = resolveShape d.globalScope i s ∧
      s.rules[j]? = some r ∧ r.SameBut r' ∧
      rule = resolveRule d.globalScope s.isPath [i, j] r' := by
  obtain ⟨s, found, rfl⟩ := build_shape hg h
  simp only [resolveShape, List.getElem?_mapIdx, Option.map_eq_some_iff] at hr
  obtain ⟨r', hr', rfl⟩ := hr
  obtain ⟨r, hr, same⟩ := Rule.normalized_getElem? hr'
  exact ⟨s, r, r', found, rfl, hr, same, rfl⟩

theorem build_rule (hd : d.Drafted) (hg : d.build = .ok g) {i j : Nat} {shape : Shape α}
    {rule : Rule α} (h : g.shapes[i]? = some shape) (hr : shape.rules[j]? = some rule) :
    ∃ b, RuleOf d i j shape rule b := by
  obtain ⟨s, r, r', found, rfl, source, ⟨shape, body, span⟩, rfl⟩ := build_source hg h hr
  have mem := List.mem_of_getElem? found
  have fits := hd.regular.rules s mem r (List.mem_of_getElem? source)
  refine ⟨r.body, {
    body := by simp [resolveRule, body]
    index := (shape.trans fits.shape).trans (hd.regular.index i s found)
    params := fits.params
    slots := fits.slots
    made := fits.made
    drafted := ⟨s, r, found, source, rfl, rfl⟩
    cell := by simp [resolveRule, resolveShape, Shape.weighted, body] }⟩

theorem RuleOf.length_params {i j : Nat} {shape : Shape α} {rule : Rule α} {b : Body α}
    (h : RuleOf d i j shape rule b) : shape.params.length = rule.body.params.length := by
  rw [h.body, ← h.params]
  obtain ⟨statements, params, slots⟩ := b
  rw [Body.resolve]

theorem RuleOf.mem_bodies {i j : Nat} {shape : Shape α} {rule : Rule α} {b : Body α}
    (h : RuleOf d i j shape rule b) : b ∈ d.bodies := by
  obtain ⟨s, r, hs, hr, -, rfl⟩ := h.drafted
  exact List.mem_flatMap.mpr ⟨s, List.mem_of_getElem? hs,
    List.mem_map.mpr ⟨r, List.mem_of_getElem? hr, rfl⟩⟩

/-! ### What the build ruled out -/

theorem no_problem (hg : d.build = .ok g) {p : Diagnostic} (hp : p ∈ d.allProblems) :
    p.code.isError = false := by
  obtain ⟨none, -⟩ := build_eq_ok.mp hg
  rw [errors, List.filter_eq_nil_iff] at none
  simpa using none p hp

theorem mem_kindProblems {s : Shape α} {r : Rule α} (hs : s ∈ d.shapes) (hr : r ∈ s.rules)
    {p : Diagnostic} (hp : p ∈ r.kindProblems s) : p ∈ d.allProblems := by
  have kind : p ∈ d.kindProblems :=
    List.mem_flatMap.mpr ⟨s, hs, List.mem_flatMap.mpr ⟨r, hr, hp⟩⟩
  simp [allProblems, kind]

theorem no_replacement (hg : d.build = .ok g) {s : Shape α} {r : Rule α} (hs : s ∈ d.shapes)
    (hr : r ∈ s.rules) (path : s.isPath = true) : r.body.yield.replacement = false := by
  refine Bool.eq_false_iff.mpr fun replaces => ?_
  have problem : (⟨r.span, .pathReplaces s.name⟩ : Diagnostic) ∈ r.kindProblems s := by
    simp [Rule.kindProblems, path, replaces]
  have error := no_problem hg (mem_kindProblems hs hr problem)
  cases error

theorem RuleOf.no_replacement {i j : Nat} {shape : Shape α} {rule : Rule α} {b : Body α}
    (h : RuleOf d i j shape rule b) (hg : d.build = .ok g) (path : shape.isPath = true) :
    b.yield.replacement = false := by
  obtain ⟨s, r, hs, hr, same, rfl⟩ := h.drafted
  exact Draft.no_replacement hg (List.mem_of_getElem? hs) (List.mem_of_getElem? hr)
    (same.trans path)

theorem RuleOf.no_operator {i j : Nat} {shape : Shape α} {rule : Rule α} {b : Body α}
    (h : RuleOf d i j shape rule b) (hg : d.build = .ok g) (path : shape.isPath = false) :
    b.yield.operator = false ∧ b.yield.command = false := by
  obtain ⟨s, r, hs, hr, same, rfl⟩ := h.drafted
  rw [path] at same
  rw [← Bool.or_eq_false_iff]
  refine Bool.eq_false_iff.mpr fun draws => ?_
  have problem : (⟨r.span, .pathOutside s.name⟩ : Diagnostic) ∈ r.kindProblems s := by
    simp [Rule.kindProblems, same, draws]
  have error := no_problem hg
    (mem_kindProblems (List.mem_of_getElem? hs) (List.mem_of_getElem? hr) problem)
  cases error

end Draft

end ShapeGrammar
