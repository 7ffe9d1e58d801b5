import ShapeGrammar.Proofs.Accounts
import ShapeGrammar.Proofs.SameStack.Expansion

/-!
# A ledger of paths

The notes of a run name the rules it takes and the calls of its renderer, in
order. Read together with the paths that are kept and the next identity, they
are a ledger: every entry is a note about no path, or the whole of a path that
was either fetched again or built with the next identity. What a ledger says of
identities follows from that alone.
-/

set_option autoImplicit false

namespace ShapeGrammar

variable {σ α : Type}

inductive Note (α : Type) where
  | taken (rule : Rule α)
  | call (c : Call α)

def Renderer.noted (r : Renderer σ α) : Renderer (σ × List (Note α)) α where
  cutoff i depth s :=
    let (verdict, inner) := r.cutoff i depth s.1
    (verdict, (inner, s.2 ++ [.call (.cutoff i depth verdict)]))
  drawPrimitive i p s := (r.drawPrimitive i p s.1, s.2 ++ [.call (.primitive i p)])
  drawPath i uid path command s :=
    (r.drawPath i uid path command s.1, s.2 ++ [.call (.path i uid path command)])

namespace Note

def announce (rule : Rule α) (s : σ × List (Note α)) : σ × List (Note α) :=
  (s.1, s.2 ++ [.taken rule])

def isPath : Note α → Bool
  | .call (.path _ _ _ _) => true
  | _ => false

def ofPath [Scalar α] (x : Instance α) (uid : Nat) (p : Path.Compiled α) : List (Note α) :=
  p.allCommands.map fun command => .call (.path (x.apply command.adjust) uid p command)

end Note

/-! ### Reading the notes -/

def Draws (log : List (Note α)) (m uid : Nat) (p : Path.Compiled α) : Prop :=
  ∃ x command, log[m]? = some (.call (.path x uid p command))

/-- The note is of a rule, and the path is drawn from the next one on. -/
def Expands (log : List (Note α)) (k : Nat) (rule : Rule α) (uid : Nat) (p : Path.Compiled α) :
    Prop :=
  log[k]? = some (.taken rule) ∧ Draws log (k + 1) uid p

/-- No earlier expansion was of the same static rule. -/
def Unexpanded (log : List (Note α)) (k : Nat) (rule : Rule α) : Prop :=
  rule.isStatic = false ∨ ∀ k' < k, ∀ rule' uid p, Expands log k' rule' uid p →
    rule'.cell ≠ rule.cell

/-- The rule was taken for the instance, and then every command of the path was
drawn, in order. -/
structure Expansion [Scalar α] (log : List (Note α)) (k : Nat) (rule : Rule α) (x : Instance α)
    (uid : Nat) (p : Path.Compiled α) : Prop where
  taken : log[k]? = some (.taken rule)
  some : p.allCommands ≠ []
  drawn : ∀ (j : Nat) (command : Path.Command α), p.allCommands[j]? = Option.some command →
    log[k + 1 + j]? = Option.some (.call (.path (x.apply command.adjust) uid p command))

section Notes

variable {log : List (Note α)}

theorem Draws.lt_length {m uid : Nat} {p : Path.Compiled α} (h : Draws log m uid p) :
    m < log.length := by
  obtain ⟨x, command, found⟩ := h
  exact (List.getElem?_eq_some_iff.mp found).1

theorem draws_append (ext : List (Note α)) (m uid : Nat) (p : Path.Compiled α) :
    Draws (log ++ ext) m uid p ↔
      Draws log m uid p ∨ log.length ≤ m ∧ Draws ext (m - log.length) uid p := by
  by_cases inside : m < log.length
  · simp only [Draws, List.getElem?_append_left inside]
    constructor
    · exact .inl
    · rintro (drawn | ⟨outside, -⟩)
      · exact drawn
      · omega
  · have outside : log.length ≤ m := Nat.le_of_not_lt inside
    simp only [Draws, List.getElem?_append_right outside]
    constructor
    · exact fun drawn => .inr ⟨outside, drawn⟩
    · rintro (⟨x, command, found⟩ | ⟨-, drawn⟩)
      · have := (List.getElem?_eq_some_iff.mp found).1
        omega
      · exact drawn

/-- What follows does not begin with a command of a path, so no expansion lies
across the seam. -/
theorem expands_append {ext : List (Note α)} (seam : ∀ uid p, ¬ Draws ext 0 uid p) (k : Nat)
    (rule : Rule α) (uid : Nat) (p : Path.Compiled α) :
    Expands (log ++ ext) k rule uid p ↔
      Expands log k rule uid p ∨ log.length ≤ k ∧ Expands ext (k - log.length) rule uid p := by
  unfold Expands
  rw [draws_append]
  by_cases inside : k < log.length
  · rw [List.getElem?_append_left inside]
    constructor
    · rintro ⟨taken, drawn | ⟨outside, drawn⟩⟩
      · exact .inl ⟨taken, drawn⟩
      · have here : k + 1 - log.length = 0 := by omega
        rw [here] at drawn
        exact absurd drawn (seam uid p)
    · rintro (⟨taken, drawn⟩ | ⟨outside, -⟩)
      · exact ⟨taken, .inl drawn⟩
      · omega
  · have outside : log.length ≤ k := Nat.le_of_not_lt inside
    have next : k + 1 - log.length = k - log.length + 1 := by omega
    rw [List.getElem?_append_right outside, next]
    constructor
    · rintro ⟨taken, drawn | ⟨-, drawn⟩⟩
      · have := drawn.lt_length
        omega
      · exact .inr ⟨outside, taken, drawn⟩
    · rintro (⟨-, drawn⟩ | ⟨-, taken, drawn⟩)
      · have := drawn.lt_length
        omega
      · exact ⟨taken, .inr ⟨Nat.le_succ_of_le outside, drawn⟩⟩

theorem not_draws_of_plain {n : Note α} (plain : n.isPath = false) (m uid : Nat)
    (p : Path.Compiled α) : ¬ Draws [n] m uid p := by
  rintro ⟨x, command, found⟩
  rw [← List.mem_singleton.mp (List.mem_of_getElem? found)] at plain
  cases plain

end Notes

variable [Scalar α]

def Note.ofExpansion (rule : Rule α) (x : Instance α) (uid : Nat) (p : Path.Compiled α) :
    List (Note α) :=
  .taken rule :: Note.ofPath x uid p

section Entry

variable {log : List (Note α)} {rule : Rule α} {x : Instance α} {uid : Nat} {p : Path.Compiled α}

theorem draws_ofExpansion {m uid' : Nat} {p' : Path.Compiled α} :
    Draws (Note.ofExpansion rule x uid p) m uid' p' ↔
      uid' = uid ∧ p' = p ∧ 0 < m ∧ m ≤ p.allCommands.length := by
  cases m with
  | zero => simp [Draws, Note.ofExpansion]
  | succ m =>
    simp only [Draws, Note.ofExpansion, Note.ofPath, List.getElem?_cons_succ, List.getElem?_map,
      Option.map_eq_some_iff]
    constructor
    · rintro ⟨_, _, command, found, same⟩
      cases same
      have := (List.getElem?_eq_some_iff.mp found).1
      exact ⟨rfl, rfl, Nat.succ_pos m, this⟩
    · rintro ⟨rfl, rfl, -, inside⟩
      exact ⟨_, _, _, List.getElem?_eq_getElem inside, rfl⟩

theorem expands_ofExpansion (some : p.allCommands ≠ []) {k uid' : Nat} {rule' : Rule α}
    {p' : Path.Compiled α} : Expands (Note.ofExpansion rule x uid p) k rule' uid' p' ↔
      k = 0 ∧ rule' = rule ∧ uid' = uid ∧ p' = p := by
  have length := List.length_pos_iff.mpr some
  unfold Expands
  rw [draws_ofExpansion]
  cases k with
  | zero =>
    simp only [Note.ofExpansion, List.getElem?_cons_zero, Option.some.injEq, Note.taken.injEq]
    constructor
    · rintro ⟨rfl, rfl, rfl, -⟩
      exact ⟨trivial, rfl, rfl, rfl⟩
    · rintro ⟨-, rfl, rfl, rfl⟩
      exact ⟨rfl, rfl, rfl, Nat.succ_pos 0, length⟩
  | succ k => simp [Note.ofExpansion, Note.ofPath]

theorem expansion_last (some : p.allCommands ≠ []) :
    Expansion (log ++ Note.ofExpansion rule x uid p) log.length rule x uid p where
  taken := by simp [Note.ofExpansion]
  some := some
  drawn j command found := by
    have later : log.length ≤ log.length + 1 + j := by omega
    have here : log.length + 1 + j - log.length = j + 1 := by omega
    rw [List.getElem?_append_right later, here]
    simp [Note.ofExpansion, Note.ofPath, found]

theorem Expansion.append {k : Nat} (h : Expansion log k rule x uid p) (ext : List (Note α)) :
    Expansion (log ++ ext) k rule x uid p where
  taken := by
    rw [List.getElem?_append_left (List.getElem?_eq_some_iff.mp h.taken).1]
    exact h.taken
  some := h.some
  drawn j command found := by
    have drawn := h.drawn j command found
    rw [List.getElem?_append_left (List.getElem?_eq_some_iff.mp drawn).1]
    exact drawn

end Entry

/-! ### Ledgers -/

/-- The paths that are kept, the next identity and the notes, from the first
identity on. -/
inductive Ledger (g : Grammar α) (first : Nat) :
    List (Address × Path.Compiled α) → Nat → List (Note α) → Prop
  | start : Ledger g first [] first []
  /-- A rule is taken, or the renderer is called for something else than a path. -/
  | note {paths : List (Address × Path.Compiled α)} {next : Nat} {log : List (Note α)} (n : Note α)
      (plain : n.isPath = false) (ours : ∀ rule, n = .taken rule → ∃ i j, g.RuleAt i j rule)
      (before : Ledger g first paths next log) : Ledger g first paths next (log ++ [n])
  /-- A path that is kept is drawn again. -/
  | again {paths : List (Address × Path.Compiled α)} {next : Nat} {log : List (Note α)} {i j : Nat}
      {rule : Rule α} (at_ : g.RuleAt i j rule) {place : Address} (x : Instance α)
      {p : Path.Compiled α} {uid : Nat} (cell : rule.cell = some place)
      (found : paths.lookup place = some p) (identity : p.uid = some uid)
      (before : Ledger g first paths next log) :
      Ledger g first paths next (log ++ Note.ofExpansion rule x uid p)
  /-- A path is built, kept if its rule is static, and drawn. -/
  | fresh {paths : List (Address × Path.Compiled α)} {next : Nat} {log : List (Note α)} {i j : Nat}
      {rule : Rule α} (at_ : g.RuleAt i j rule) (x : Instance α) {p : Path.Compiled α}
      (missed : ∀ place, rule.cell = some place → paths.lookup place = none)
      (identity : p.uid = some next) (whole : p.Whole) (before : Ledger g first paths next log) :
      Ledger g first (rule.cell.toList.map (·, p) ++ paths) (next + 1)
        (log ++ Note.ofExpansion rule x next p)

structure Identities (g : Grammar α) (first next : Nat) (log : List (Note α)) : Prop where
  /-- The rules are those of the grammar. -/
  rules : ∀ (k : Nat) rule, log[k]? = some (.taken rule) → ∃ i j, g.RuleAt i j rule
  /-- Every command of a path is drawn by the expansion of a rule that draws them
  all. -/
  expansions : ∀ (m uid : Nat) (p : Path.Compiled α) x command,
    log[m]? = some (.call (.path x uid p command)) → ∃ k rule x₀ j,
      Expansion log k rule x₀ uid p ∧ m = k + 1 + j ∧ p.allCommands[j]? = some command ∧
        x = x₀.apply command.adjust
  /-- The identities that were issued are those that were drawn. -/
  issued : ∀ uid, first ≤ uid ∧ uid < next ↔ ∃ m p, Draws log m uid p
  /-- A path bears the identity it is drawn with, and its commands cover segments
  that it has. -/
  whole : ∀ m uid p, Draws log m uid p → p.uid = some uid ∧ p.Whole
  /-- Static rules always draw what they drew first. -/
  static : ∀ k k' rule rule' uid uid' p p', Expands log k rule uid p →
    Expands log k' rule' uid' p' → rule.isStatic = true → rule'.cell = rule.cell →
    uid = uid' ∧ p = p'
  /-- Other expansions, and the first of a static rule, have an identity above all
  that were issued before. -/
  fresh : ∀ k rule uid p, Expands log k rule uid p → Unexpanded log k rule →
    ∀ m < k, ∀ uid' p', Draws log m uid' p' → uid' < uid
  /-- One identity is of one path. -/
  unique : ∀ m m' uid p p', Draws log m uid p → Draws log m' uid p' → p = p'

structure Ledger.Sound (g : Grammar α) (first : Nat) (paths : List (Address × Path.Compiled α))
    (next : Nat) (log : List (Note α)) : Prop extends Identities g first next log where
  range : first ≤ next
  /-- What is kept is what static rules have drawn. -/
  kept : ∀ place p, paths.lookup place = some p ↔
    ∃ k rule uid, rule.cell = some place ∧ Expands log k rule uid p

namespace Ledger

variable {g : Grammar α} {first next : Nat} {paths : List (Address × Path.Compiled α)}
  {log : List (Note α)}

theorem sound_start : Sound g first [] first [] where
  rules k rule taken := by cases taken
  expansions m uid p x command found := by cases found
  issued uid := by
    constructor
    · omega
    · rintro ⟨m, p, x, command, found⟩
      cases found
  whole := by
    rintro m uid p ⟨x, command, found⟩
    cases found
  static := by
    rintro k k' rule rule' uid uid' p p' ⟨taken, -⟩
    cases taken
  fresh := by
    rintro k rule uid p ⟨taken, -⟩
    cases taken
  unique := by
    rintro m m' uid p p' ⟨x, command, found⟩
    cases found
  range := Nat.le_refl first
  kept place p := by
    constructor
    · exact nofun
    · rintro ⟨k, rule, uid, -, taken, -⟩
      cases taken

theorem Sound.note (h : Sound g first paths next log) {n : Note α} (plain : n.isPath = false)
    (ours : ∀ rule, n = .taken rule → ∃ i j, g.RuleAt i j rule) :
    Sound g first paths next (log ++ [n]) := by
  -- Neither what is drawn nor what is expanded is changed by a note about no path.
  have none : ∀ m uid p, ¬ Draws [n] m uid p := not_draws_of_plain plain
  have draws : ∀ m uid p, Draws (log ++ [n]) m uid p ↔ Draws log m uid p := by
    intro m uid p
    simp only [draws_append, none, and_false, or_false]
  have expands : ∀ k rule uid p, Expands (log ++ [n]) k rule uid p ↔ Expands log k rule uid p := by
    intro k rule uid p
    rw [expands_append (none 0)]
    constructor
    · rintro (before | ⟨-, -, drawn⟩)
      · exact before
      · exact absurd drawn (none _ uid p)
    · exact .inl
  constructor
  case toIdentities =>
    constructor
    case rules =>
      intro k rule taken
      by_cases inside : k < log.length
      · rw [List.getElem?_append_left inside] at taken
        exact h.rules k rule taken
      · rw [List.getElem?_append_right (Nat.le_of_not_lt inside)] at taken
        exact ours rule (List.mem_singleton.mp (List.mem_of_getElem? taken)).symm
    case expansions =>
      intro m uid p x command found
      obtain ⟨x', command', found'⟩ := (draws m uid p).mp ⟨x, command, found⟩
      rw [List.getElem?_append_left (List.getElem?_eq_some_iff.mp found').1] at found
      obtain ⟨k, rule, x₀, j, expansion, rest⟩ := h.expansions m uid p x command found
      exact ⟨k, rule, x₀, j, expansion.append [n], rest⟩
    case issued =>
      intro uid
      simp only [draws]
      exact h.issued uid
    case whole =>
      intro m uid p drawn
      exact h.whole m uid p ((draws m uid p).mp drawn)
    case static =>
      intro k k' rule rule' uid uid' p p' this that
      exact h.static k k' rule rule' uid uid' p p' ((expands ..).mp this) ((expands ..).mp that)
    case fresh =>
      intro k rule uid p this unexpanded m hm uid' p' drawn
      simp only [Unexpanded, expands] at unexpanded
      exact h.fresh k rule uid p ((expands ..).mp this) unexpanded m hm uid' p'
        ((draws ..).mp drawn)
    case unique =>
      intro m m' uid p p' this that
      exact h.unique m m' uid p p' ((draws ..).mp this) ((draws ..).mp that)
  case range => exact h.range
  case kept =>
    intro place p
    simp only [expands]
    exact h.kept place p

section Expanded

variable {i j : Nat} {rule : Rule α} {x : Instance α} {uid : Nat} {p : Path.Compiled α}

theorem draws_expanded (m uid' : Nat) (p' : Path.Compiled α) :
    Draws (log ++ Note.ofExpansion rule x uid p) m uid' p' ↔ Draws log m uid' p' ∨
      uid' = uid ∧ p' = p ∧ log.length < m ∧ m ≤ log.length + p.allCommands.length := by
  rw [draws_append, draws_ofExpansion]
  constructor
  · rintro (drawn | ⟨later, same, same', positive, inside⟩)
    · exact .inl drawn
    · exact .inr ⟨same, same', by omega, by omega⟩
  · rintro (drawn | ⟨same, same', later, inside⟩)
    · exact .inl drawn
    · exact .inr ⟨by omega, same, same', by omega, by omega⟩

theorem expands_expanded (some : p.allCommands ≠ []) (k : Nat) (rule' : Rule α) (uid' : Nat)
    (p' : Path.Compiled α) :
    Expands (log ++ Note.ofExpansion rule x uid p) k rule' uid' p' ↔ Expands log k rule' uid' p' ∨
      k = log.length ∧ rule' = rule ∧ uid' = uid ∧ p' = p := by
  rw [expands_append, expands_ofExpansion some]
  · constructor
    · rintro (before | ⟨later, here, same⟩)
      · exact .inl before
      · exact .inr ⟨by omega, same⟩
    · rintro (before | ⟨rfl, same⟩)
      · exact .inl before
      · exact .inr ⟨Nat.le_refl _, by omega, same⟩
  · intro uid' p' drawn
    have := draws_ofExpansion.mp drawn
    omega

structure Addition (first : Nat) (paths later : List (Address × Path.Compiled α))
    (next next' : Nat) (log : List (Note α)) (rule : Rule α) (uid : Nat) (p : Path.Compiled α) :
    Prop where
  identity : p.uid = some uid
  whole : p.Whole
  range : first ≤ next'
  issued : ∀ u, first ≤ u ∧ u < next' ↔ first ≤ u ∧ u < next ∨ u = uid
  drawn : ∀ m p', Draws log m uid p' → p' = p
  static : ∀ k rule' uid' p', Expands log k rule' uid' p' → rule'.isStatic = true →
    rule'.cell = rule.cell → uid' = uid ∧ p' = p
  above : Unexpanded log log.length rule → ∀ m uid' p', Draws log m uid' p' → uid' < uid
  kept : ∀ place p', later.lookup place = some p' ↔
    paths.lookup place = some p' ∨ rule.cell = some place ∧ p' = p

section Added

variable {later : List (Address × Path.Compiled α)} {next' : Nat}

theorem rules_expanded (h : Identities g first next log) (at_ : g.RuleAt i j rule) (k : Nat)
    (rule' : Rule α) (taken : (log ++ Note.ofExpansion rule x uid p)[k]? = some (.taken rule')) :
    ∃ i j, g.RuleAt i j rule' := by
  by_cases inside : k < log.length
  · rw [List.getElem?_append_left inside] at taken
    exact h.rules k rule' taken
  · rw [List.getElem?_append_right (Nat.le_of_not_lt inside)] at taken
    have mem := List.mem_of_getElem? taken
    simp only [Note.ofExpansion, Note.ofPath, List.mem_cons, Note.taken.injEq, List.mem_map,
      reduceCtorEq, and_false, exists_false, or_false] at mem
    exact ⟨i, j, mem ▸ at_⟩

theorem expansions_expanded (h : Identities g first next log) (some : p.allCommands ≠ [])
    {m uid' : Nat} {p' : Path.Compiled α} {y : Instance α} {command : Path.Command α}
    (found : (log ++ Note.ofExpansion rule x uid p)[m]? =
      Option.some (.call (.path y uid' p' command))) :
    ∃ k rule' x₀ j, Expansion (log ++ Note.ofExpansion rule x uid p) k rule' x₀ uid' p' ∧
      m = k + 1 + j ∧ p'.allCommands[j]? = Option.some command ∧ y = x₀.apply command.adjust := by
  rcases (draws_expanded m uid' p').mp ⟨y, command, found⟩ with before | ⟨rfl, rfl, later, inside⟩
  · rw [List.getElem?_append_left before.lt_length] at found
    obtain ⟨k, rule', x₀, j, expansion, rest⟩ := h.expansions m uid' p' y command found
    exact ⟨k, rule', x₀, j, expansion.append _, rest⟩
  · obtain ⟨j, rfl⟩ : ∃ j, m = log.length + 1 + j := ⟨m - log.length - 1, by omega⟩
    have last : Expansion (log ++ Note.ofExpansion rule x uid' p') log.length rule x uid' p' :=
      expansion_last some
    have here : p'.allCommands[j]? = Option.some p'.allCommands[j] :=
      List.getElem?_eq_getElem (by omega)
    have same := (last.drawn j _ here).symm.trans found
    simp only [Option.some.injEq, Note.call.injEq, Call.path.injEq, true_and] at same
    obtain ⟨placed, rfl⟩ := same
    exact ⟨log.length, rule, x, j, last, rfl, here, placed.symm⟩

variable (added : Addition first paths later next next' log rule uid p)

include added

theorem Addition.expands (k : Nat) (rule' : Rule α) (uid' : Nat) (p' : Path.Compiled α) :
    Expands (log ++ Note.ofExpansion rule x uid p) k rule' uid' p' ↔ Expands log k rule' uid' p' ∨
      k = log.length ∧ rule' = rule ∧ uid' = uid ∧ p' = p :=
  expands_expanded added.whole.some k rule' uid' p'

theorem Addition.issues (h : Identities g first next log) (u : Nat) :
    first ≤ u ∧ u < next' ↔ ∃ m p', Draws (log ++ Note.ofExpansion rule x uid p) m u p' := by
  have positive := List.length_pos_iff.mpr added.whole.some
  rw [added.issued u, h.issued u]
  constructor
  · rintro (⟨m, p', before⟩ | rfl)
    · exact ⟨m, p', (draws_expanded m u p').mpr (.inl before)⟩
    · have new : log.length < log.length + 1 := Nat.lt_succ_self _
      exact ⟨log.length + 1, p, (draws_expanded _ u p).mpr (.inr ⟨rfl, rfl, new, by omega⟩)⟩
  · rintro ⟨m, p', this⟩
    rcases (draws_expanded m u p').mp this with before | ⟨same, -⟩
    · exact .inl ⟨m, p', before⟩
    · exact .inr same

theorem Addition.again (h : Identities g first next log) {k k' : Nat} {rule₁ rule₂ : Rule α}
    {uid₁ uid₂ : Nat} {p₁ p₂ : Path.Compiled α}
    (this : Expands (log ++ Note.ofExpansion rule x uid p) k rule₁ uid₁ p₁)
    (that : Expands (log ++ Note.ofExpansion rule x uid p) k' rule₂ uid₂ p₂)
    (static : rule₁.isStatic = true) (cell : rule₂.cell = rule₁.cell) : uid₁ = uid₂ ∧ p₁ = p₂ := by
  rcases (added.expands ..).mp this with before | ⟨-, rfl, rfl, rfl⟩
  · rcases (added.expands ..).mp that with before' | ⟨-, rfl, rfl, rfl⟩
    · exact h.static k k' rule₁ rule₂ uid₁ uid₂ p₁ p₂ before before' static cell
    · exact added.static k rule₁ uid₁ p₁ before static cell.symm
  · rcases (added.expands ..).mp that with before' | ⟨-, rfl, rfl, rfl⟩
    · have static' : rule₂.isStatic = true := by
        rw [Rule.isStatic, cell]
        exact static
      obtain ⟨same, same'⟩ := added.static k' rule₂ uid₂ p₂ before' static' cell
      exact ⟨same.symm, same'.symm⟩
    · exact ⟨rfl, rfl⟩

theorem Addition.rises (h : Identities g first next log) {k : Nat} {rule' : Rule α} {uid' : Nat}
    {p' : Path.Compiled α}
    (this : Expands (log ++ Note.ofExpansion rule x uid p) k rule' uid' p')
    (new : Unexpanded (log ++ Note.ofExpansion rule x uid p) k rule') {m : Nat} (hm : m < k)
    {uid'' : Nat} {p'' : Path.Compiled α}
    (that : Draws (log ++ Note.ofExpansion rule x uid p) m uid'' p'') : uid'' < uid' := by
  have unexpanded : Unexpanded log k rule' := by
    refine new.imp_right fun none k' hk' rule'' u q before => ?_
    exact none k' hk' rule'' u q ((added.expands ..).mpr (.inl before))
  have inside : k ≤ log.length := by
    rcases (added.expands ..).mp this with before | ⟨here, -⟩
    · exact Nat.le_of_lt (List.getElem?_eq_some_iff.mp before.1).1
    · omega
  have before' : Draws log m uid'' p'' := by
    rcases (draws_expanded ..).mp that with before' | ⟨-, -, later, -⟩
    · exact before'
    · omega
  rcases (added.expands ..).mp this with before | ⟨rfl, rfl, rfl, rfl⟩
  · exact h.fresh k rule' uid' p' before unexpanded m hm uid'' p'' before'
  · exact added.above unexpanded m uid'' p'' before'

theorem Addition.single (h : Identities g first next log) {m m' uid' : Nat}
    {p₁ p₂ : Path.Compiled α} (this : Draws (log ++ Note.ofExpansion rule x uid p) m uid' p₁)
    (that : Draws (log ++ Note.ofExpansion rule x uid p) m' uid' p₂) : p₁ = p₂ := by
  rcases (draws_expanded ..).mp this with before | ⟨rfl, rfl, -⟩
  · rcases (draws_expanded ..).mp that with before' | ⟨rfl, rfl, -⟩
    · exact h.unique m m' uid' p₁ p₂ before before'
    · exact added.drawn m p₁ before
  · rcases (draws_expanded ..).mp that with before' | ⟨-, rfl, -⟩
    · exact (added.drawn m' p₂ before').symm
    · rfl

theorem Sound.expanded (h : Sound g first paths next log) (at_ : g.RuleAt i j rule) :
    Sound g first later next' (log ++ Note.ofExpansion rule x uid p) where
  rules := rules_expanded h.toIdentities at_
  expansions _ _ _ _ _ found := expansions_expanded h.toIdentities added.whole.some found
  issued := added.issues h.toIdentities
  whole m uid' p' this := by
    rcases (draws_expanded m uid' p').mp this with before | ⟨rfl, rfl, -⟩
    · exact h.whole m uid' p' before
    · exact ⟨added.identity, added.whole⟩
  static _ _ _ _ _ _ _ _ this that static cell := added.again h.toIdentities this that static cell
  fresh _ _ _ _ this new _ hm _ _ that := added.rises h.toIdentities this new hm that
  unique _ _ _ _ _ this that := added.single h.toIdentities this that
  range := added.range
  kept place p' := by
    rw [added.kept place p', h.kept place p']
    constructor
    · rintro (⟨k, rule', uid', cell, before⟩ | ⟨cell, rfl⟩)
      · exact ⟨k, rule', uid', cell, (added.expands ..).mpr (.inl before)⟩
      · exact ⟨log.length, rule, uid, cell, (added.expands ..).mpr (.inr ⟨rfl, rfl, rfl, rfl⟩)⟩
    · rintro ⟨k, rule', uid', cell, this⟩
      rcases (added.expands ..).mp this with before | ⟨-, rfl, -, rfl⟩
      · exact .inl ⟨k, rule', uid', cell, before⟩
      · exact .inr ⟨cell, rfl⟩

end Added

/-- A path that is kept was drawn before, with the same identity. -/
theorem Sound.addition_again (h : Sound g first paths next log) {place : Address}
    (cell : rule.cell = some place) (found : paths.lookup place = some p)
    (identity : p.uid = some uid) : Addition first paths paths next next log rule uid p := by
  obtain ⟨k, rule', uid', cell', expanded⟩ := (h.kept place p).mp found
  have drawn := expanded.2
  obtain ⟨identity', whole⟩ := h.whole _ uid' p drawn
  cases identity.symm.trans identity'
  have issued := (h.issued uid).mpr ⟨_, p, drawn⟩
  constructor
  case identity => exact identity
  case whole => exact whole
  case range => exact h.range
  case issued =>
    intro u
    constructor
    · exact .inl
    · rintro (before | rfl)
      · exact before
      · exact issued
  case drawn => exact fun m p' this => h.unique m _ uid p' p this drawn
  case static =>
    intro k₁ rule₁ uid₁ p₁ this static same
    exact h.static k₁ k rule₁ rule' uid₁ uid p₁ p this expanded static
      (cell'.trans (same.trans cell).symm)
  case above =>
    rintro (dynamic | none)
    · simp [Rule.isStatic, cell] at dynamic
    · have inside := (List.getElem?_eq_some_iff.mp expanded.1).1
      exact absurd (cell'.trans cell.symm) (none k inside rule' uid p expanded)
  case kept =>
    intro other p'
    constructor
    · exact .inl
    · rintro (before | ⟨cell', rfl⟩)
      · exact before
      · cases cell.symm.trans cell'
        exact found

/-- A path that is built has an identity of its own. -/
theorem Sound.addition_fresh (h : Sound g first paths next log)
    (missed : ∀ place, rule.cell = some place → paths.lookup place = none)
    (identity : p.uid = some next) (whole : p.Whole) :
    Addition first paths (rule.cell.toList.map (·, p) ++ paths) next (next + 1) log rule next
      p := by
  have below : ∀ m uid' p', Draws log m uid' p' → uid' < next :=
    fun m uid' p' drawn => ((h.issued uid').mpr ⟨m, p', drawn⟩).2
  have range := h.range
  constructor
  case identity => exact identity
  case whole => exact whole
  case range => omega
  case issued => omega
  case drawn => exact fun m p' drawn => absurd (below m next p' drawn) (Nat.lt_irrefl next)
  case static =>
    intro k rule' uid' p' this static same
    obtain ⟨place, cell⟩ := Option.isSome_iff_exists.mp static
    have found := (h.kept place p').mpr ⟨k, rule', uid', cell, this⟩
    rw [missed place (same ▸ cell)] at found
    cases found
  case above => exact fun _ => below
  case kept =>
    intro place p'
    cases cell : rule.cell with
    | none => simp
    | some other =>
      by_cases same : place = other
      · cases same
        simp only [Option.toList_some, List.map_cons, List.map_nil, List.singleton_append,
          List.lookup_cons, beq_self_eq_true, missed place cell, Option.some.injEq, reduceCtorEq,
          true_and, false_or]
        exact eq_comm
      · have different : (place == other) = false := beq_eq_false_iff_ne.mpr same
        have different' : other ≠ place := Ne.symm same
        simp [List.lookup_cons, different, different']

end Expanded

/-- What every ledger says of identities. -/
theorem sound (h : Ledger g first paths next log) : Sound g first paths next log := by
  induction h with
  | start => exact sound_start
  | note n plain ours _ ih => exact ih.note plain ours
  | again at_ x cell found identity _ ih =>
    exact Sound.expanded (ih.addition_again cell found identity) ih at_
  | fresh at_ x missed identity whole _ ih =>
    exact Sound.expanded (ih.addition_fresh missed identity whole) ih at_

end Ledger

end ShapeGrammar
