import ShapeGrammar.Proofs.Coverage

/-!
# How commands tile a path

The commands of a finished path lie side by side over its segments, in the order
in which they were given, and leave none out. Commands share a range when nothing
asked for the storage between them: each is counted with the number of requests
before it, its round, and the invariant compares rounds with ranges.
-/

set_option autoImplicit false

namespace ShapeGrammar.Path

variable {α : Type}

/-- What can be done to a path that is being built. A touch asks for the storage
and leaves it as it is. -/
inductive BuildStep (α : Type) where
  | append (op : Operator) (flags : Flags) (isCubic : Bool) (args : Args α) (m : Affine α)
  | touch
  | command (c : Command α)

namespace BuildStep

def asks : BuildStep α → Bool
  | .append .. => true
  | .touch => true
  | .command _ => false

/-- The rounds of the commands, from the present one on. -/
def rounds (now : Nat) : List (BuildStep α) → List Nat
  | [] => []
  | .append .. :: rest => rounds (now + 1) rest
  | .touch :: rest => rounds (now + 1) rest
  | .command _ :: rest => now :: rounds now rest

def marks (steps : List (BuildStep α)) : List Nat := rounds 0 steps ++ [steps.countP asks]

theorem exists_command {step : BuildStep α} (h : ¬step.asks = true) : ∃ c, step = .command c := by
  cases step with
  | append op flags isCubic args m => exact absurd rfl h
  | touch => exact absurd rfl h
  | command c => exact ⟨c, rfl⟩

theorem rounds_cons_of_asks {step : BuildStep α} (h : step.asks = true) (now : Nat)
    (rest : List (BuildStep α)) : rounds now (step :: rest) = rounds (now + 1) rest := by
  cases step with
  | append op flags isCubic args m => rfl
  | touch => rfl
  | command c => cases h

/-- There is a round for each command and for nothing else. -/
theorem rounds_eq_nil_iff (now : Nat) (steps : List (BuildStep α)) :
    rounds now steps = [] ↔ ∀ step ∈ steps, step.asks = true := by
  induction steps generalizing now with
  | nil => simp [rounds]
  | cons step rest ih => cases step <;> simp [rounds, asks, ih]

theorem exists_last_command (steps : List (BuildStep α)) :
    (∀ step ∈ steps, step.asks = true) ∨ ∃ before c rest,
      steps = before ++ .command c :: rest ∧ ∀ step ∈ rest, step.asks = true := by
  induction steps with
  | nil => exact .inl nofun
  | cons step tail ih =>
    rcases ih with all | ⟨before, c, rest, rfl, all⟩
    · by_cases asks : step.asks = true
      · exact .inl (List.forall_mem_cons.mpr ⟨asks, all⟩)
      · obtain ⟨c, rfl⟩ := exists_command asks
        exact .inr ⟨[], c, tail, rfl, all⟩
    · exact .inr ⟨step :: before, c, rest, rfl, all⟩

end BuildStep

def Command.range (c : Command α) : Nat × Nat := (c.first, c.stop)

/-- Two commands with their rounds. Of one round, they cover the same; of different
rounds, the second covers what lies behind the first. -/
def Beside (c d : Command α × Nat) : Prop :=
  (c.2 = d.2 → c.1.range = d.1.range) ∧ (c.2 ≠ d.2 → c.1.stop ≤ d.1.first)

namespace Compiled

/-! ### What a step does -/

def regrouped (p : Compiled α) : Compiled α :=
  { p with
    groupStart := if p.inGroup then p.storage.length else p.groupStart
    inGroup := false }

theorem ready_eq {p : Compiled α} (incomplete : p.complete = false) :
    p.ready = .ok p.regrouped := by
  by_cases grouped : p.inGroup = true
  · simp [ready, regrouped, incomplete, grouped]
  · have same : p.regrouped = p := by
      cases p
      simp_all [regrouped]
    rw [same]
    simp [ready, incomplete, grouped]

def commanded (p : Compiled α) (c : Command α) : Compiled α :=
  { p with
    commands := p.commands ++ [{ c with first := p.groupStart, stop := p.storage.length }]
    inGroup := true }

theorem addCommand_eq {p : Compiled α} (incomplete : p.complete = false) (c : Command α) :
    p.addCommand c = .ok (p.commanded c) := by
  simp [addCommand, commanded, incomplete]

/-! ### What every step keeps -/

/-- A path in the making, with the rounds of its commands and the present round.
Commands of the present round cover the group in progress, the others what lies
before it. -/
structure Laid (p : Compiled α) (rounds : List Nat) (now : Nat) : Prop where
  incomplete : p.complete = false
  unnamed : p.uid = none
  ranged : p.Ranged
  counted : p.commands.length = rounds.length
  present : ∀ c ∈ p.commands.zip rounds, c.2 = now →
    p.inGroup = true ∧ c.1.range = (p.groupStart, p.storage.length)
  past : ∀ c ∈ p.commands.zip rounds, c.2 ≠ now → c.2 < now ∧ c.1.stop ≤ p.groupStart
  beside : (p.commands.zip rounds).Pairwise Beside
  covered : ∀ k < p.groupStart, ∃ c ∈ p.commands, c.first ≤ k ∧ k < c.stop
  grouped : p.inGroup = true → ∃ c ∈ p.commands, c.range = (p.groupStart, p.storage.length)

namespace Laid

variable {p : Compiled α} {rounds : List Nat} {now : Nat}

/-- Once the group in progress has a command, all segments are covered. -/
theorem covers_group (h : p.Laid rounds now) (inGroup : p.inGroup = true) {k : Nat}
    (hk : k < p.storage.length) : ∃ c ∈ p.commands, c.first ≤ k ∧ k < c.stop := by
  by_cases before : k < p.groupStart
  · exact h.covered k before
  · obtain ⟨c, hc, range⟩ := h.grouped inGroup
    have ends : c.first = p.groupStart ∧ c.stop = p.storage.length := by
      simpa [Command.range] using range
    exact ⟨c, hc, by omega, by omega⟩

/-- A command over the group in progress lies beside all before it. -/
theorem beside_next (h : p.Laid rounds now) {c : Command α}
    (range : c.range = (p.groupStart, p.storage.length)) :
    ((p.commands ++ [c]).zip (rounds ++ [now])).Pairwise Beside := by
  have first : c.first = p.groupStart := congrArg Prod.fst range
  rw [List.zip_append h.counted, List.pairwise_append]
  refine ⟨h.beside, List.pairwise_singleton _ _, ?_⟩
  intro d hd e he
  rw [List.mem_singleton.mp he]
  refine ⟨fun same => (h.present d hd same).2.trans range.symm, fun other => ?_⟩
  rw [first]
  exact (h.past d hd other).2

theorem regrouped (h : p.Laid rounds now) {s : Storage α} (grown : p.storage.length ≤ s.length) :
    ({ p.regrouped with storage := s } : Compiled α).Laid rounds (now + 1) := by
  have bounds : p.groupStart ≤ p.regrouped.groupStart ∧ p.regrouped.groupStart ≤ s.length := by
    have := h.ranged.start
    simp only [Compiled.regrouped]
    split <;> omega
  -- A command of the present round is what makes the next group start at the end.
  have behind : ∀ c ∈ p.commands.zip rounds, c.2 ≤ now ∧ c.1.stop ≤ p.regrouped.groupStart := by
    intro c hc
    by_cases same : c.2 = now
    · obtain ⟨inGroup, range⟩ := h.present c hc same
      have stop : c.1.stop = p.storage.length := congrArg Prod.snd range
      simp [Compiled.regrouped, inGroup, stop, same]
    · have := h.past c hc same
      omega
  constructor
  case incomplete => exact h.incomplete
  case unnamed => exact h.unnamed
  case ranged =>
    exact ⟨h.ranged.terminal, bounds.2, fun c hc => (h.ranged.covers c hc).mono grown⟩
  case counted => exact h.counted
  case present =>
    intro c hc same
    have := (behind c hc).1
    omega
  case past =>
    intro c hc _
    exact ⟨Nat.lt_succ_of_le (behind c hc).1, (behind c hc).2⟩
  case beside => exact h.beside
  case covered =>
    intro k hk
    by_cases inGroup : p.inGroup = true
    · exact h.covers_group inGroup (by simpa [Compiled.regrouped, inGroup] using hk)
    · exact h.covered k (by simpa [Compiled.regrouped, inGroup] using hk)
  case grouped => nofun

theorem commanded (h : p.Laid rounds now) (c : Command α) :
    (p.commanded c).Laid (rounds ++ [now]) now := by
  have zipped : (p.commanded c).commands.zip (rounds ++ [now]) = p.commands.zip rounds ++
      [({ c with first := p.groupStart, stop := p.storage.length }, now)] := by
    rw [Compiled.commanded, List.zip_append h.counted]
    rfl
  constructor
  case incomplete => exact h.incomplete
  case unnamed => exact h.unnamed
  case ranged => exact h.ranged.addCommand (addCommand_eq h.incomplete c)
  case counted => simp [Compiled.commanded, h.counted]
  case present =>
    intro d hd same
    rw [zipped, List.mem_append, List.mem_singleton] at hd
    rcases hd with old | rfl
    · exact ⟨rfl, (h.present d old same).2⟩
    · exact ⟨rfl, rfl⟩
  case past =>
    intro d hd other
    rw [zipped, List.mem_append, List.mem_singleton] at hd
    rcases hd with old | rfl
    · exact h.past d old other
    · exact absurd rfl other
  case beside => exact h.beside_next rfl
  case covered =>
    intro k hk
    obtain ⟨d, hd, takes⟩ := h.covered k hk
    exact ⟨d, List.mem_append_left _ hd, takes⟩
  case grouped => exact fun _ => ⟨_, List.mem_append_right _ (List.mem_singleton_self _), rfl⟩

end Laid

/-! ### Runs -/

variable [Scalar α]

def attempt (p : Compiled α) : BuildStep α → Except Broken (Compiled α)
  | .append op flags isCubic args m => p.append op flags isCubic args m
  | .touch => p.ready
  | .command c => p.addCommand c

/-- A step that fails leaves the path as it was. -/
def step (p : Compiled α) (step : BuildStep α) : Compiled α :=
  match p.attempt step with
  | .ok q => q
  | .error _ => p

def run (p : Compiled α) : List (BuildStep α) → Compiled α
  | [] => p
  | step :: rest => (p.step step).run rest

theorem run_append (p : Compiled α) (steps rest : List (BuildStep α)) :
    p.run (steps ++ rest) = (p.run steps).run rest := by
  induction steps generalizing p with
  | nil => rfl
  | cons step steps ih => exact ih _

theorem step_of_ok {p q : Compiled α} {step : BuildStep α} (h : p.attempt step = .ok q) :
    p.step step = q := by
  rw [Compiled.step, h]

/-- A request begins a new group after a command, and the storage gets no shorter. -/
theorem attempt_asks {p : Compiled α} (incomplete : p.complete = false) {step : BuildStep α}
    (asks : step.asks = true) : ∃ s : Storage α, p.storage.length ≤ s.length ∧
      p.attempt step = .ok { p.regrouped with storage := s } := by
  cases step with
  | append op flags isCubic args m =>
    have grown := p.storage.length_le_append op flags isCubic args m
    refine ⟨_, grown, ?_⟩
    rw [attempt, append, ready_eq incomplete]
    rfl
  | touch => exact ⟨p.storage, Nat.le_refl _, ready_eq incomplete⟩
  | command c => cases asks

theorem Laid.empty (frame : FrameRef) : (Compiled.empty frame : Compiled α).Laid [] 0 where
  incomplete := rfl
  unnamed := rfl
  ranged := .empty frame
  counted := rfl
  present := nofun
  past := nofun
  beside := .nil
  covered := nofun
  grouped := nofun

theorem Laid.asked {p : Compiled α} {rounds : List Nat} {now : Nat} (h : p.Laid rounds now)
    (step : BuildStep α) (asks : step.asks = true) : (p.step step).Laid rounds (now + 1) := by
  obtain ⟨s, grown, made⟩ := attempt_asks h.incomplete asks
  rw [step_of_ok made]
  exact h.regrouped grown

theorem Laid.run {p : Compiled α} {rounds : List Nat} {now : Nat} (h : p.Laid rounds now)
    (steps : List (BuildStep α)) :
    (p.run steps).Laid (rounds ++ BuildStep.rounds now steps)
      (now + steps.countP BuildStep.asks) := by
  induction steps generalizing p rounds now with
  | nil =>
    rw [BuildStep.rounds, List.append_nil]
    exact h
  | cons step rest ih =>
    by_cases asks : step.asks = true
    · have later := ih (h.asked step asks)
      rw [BuildStep.rounds_cons_of_asks asks, List.countP_cons_of_pos asks, ← Nat.add_assoc,
        Nat.add_right_comm]
      exact later
    · obtain ⟨c, rfl⟩ := BuildStep.exists_command asks
      have made : p.attempt (.command c) = .ok (p.commanded c) := addCommand_eq h.incomplete c
      have later := ih (h.commanded c)
      rw [List.append_assoc] at later
      rw [Compiled.run, step_of_ok made]
      exact later

/-- Nothing a run does before the path is finished fails. -/
theorem Laid.attempt_ok {p : Compiled α} {rounds : List Nat} {now : Nat} (h : p.Laid rounds now)
    (step : BuildStep α) : ∃ q, p.attempt step = .ok q := by
  by_cases asks : step.asks = true
  · obtain ⟨s, _, made⟩ := attempt_asks h.incomplete asks
    exact ⟨_, made⟩
  · obtain ⟨c, rfl⟩ := BuildStep.exists_command asks
    exact ⟨_, addCommand_eq h.incomplete c⟩

/-! ### The closing fill -/

/-- Requests alone keep the group that the first of them began. -/
theorem run_asks {p : Compiled α} (incomplete : p.complete = false) (apart : p.inGroup = false)
    {steps : List (BuildStep α)} (all : ∀ step ∈ steps, step.asks = true) :
    (p.run steps).inGroup = false ∧ (p.run steps).groupStart = p.groupStart := by
  induction steps generalizing p with
  | nil => exact ⟨apart, rfl⟩
  | cons step rest ih =>
    obtain ⟨asks, others⟩ := List.forall_mem_cons.mp all
    obtain ⟨s, _, made⟩ := attempt_asks incomplete asks
    have kept : (p.step step).complete = false ∧ (p.step step).inGroup = false ∧
        (p.step step).groupStart = p.groupStart := by
      rw [step_of_ok made]
      exact ⟨incomplete, rfl, by simp [regrouped, apart]⟩
    rw [run, ← kept.2.2]
    exact ih kept.1 kept.2.1 others

/-- After the last command, what is left uncovered is what was appended since. -/
theorem uncovered_iff {p : Compiled α} (incomplete : p.complete = false) (inGroup : p.inGroup = true)
    {steps : List (BuildStep α)} (all : ∀ step ∈ steps, step.asks = true) :
    (p.run steps).uncovered = true ↔ p.storage.length < (p.run steps).storage.length := by
  cases steps with
  | nil => simp [run, uncovered, inGroup]
  | cons step rest =>
    obtain ⟨asks, others⟩ := List.forall_mem_cons.mp all
    obtain ⟨s, _, made⟩ := attempt_asks incomplete asks
    have begun : (p.step step).complete = false ∧ (p.step step).inGroup = false ∧
        (p.step step).groupStart = p.storage.length := by
      rw [step_of_ok made]
      exact ⟨incomplete, rfl, by simp [regrouped, inGroup]⟩
    have ends := run_asks begun.1 begun.2.1 others
    rw [run, uncovered, ends.1, ends.2, begun.2.2]
    simp

/-! ### The finished path -/

/-- The commands of a path, with their rounds, cover all of its segments and lie
over them side by side. -/
structure Tiled (p : Compiled α) (marks : List Nat) : Prop where
  some : p.allCommands ≠ []
  within : ∀ c ∈ p.allCommands, c.first ≤ c.stop ∧ c.stop ≤ p.storage.length
  ordered : p.allCommands.Pairwise fun c d => c.first ≤ d.first ∧ c.stop ≤ d.stop
  /-- Each command has its round, and so would the closing fill. -/
  counted : p.commands.length + 1 = marks.length
  /-- Commands of one round cover the same. Of others the second lies behind the
  first, and they only cover the same when they cover nothing. -/
  beside : (p.allCommands.zip marks).Pairwise fun c d =>
    (c.2 = d.2 → c.1.range = d.1.range) ∧
      (c.2 ≠ d.2 → c.1.stop ≤ d.1.first ∧ (c.1.range = d.1.range → c.1.first = c.1.stop))
  covered : ∀ k < p.storage.length, ∃ c ∈ p.allCommands, c.first ≤ k ∧ k < c.stop

omit [Scalar α] in
theorem length_allCommands_le (p : Compiled α) : p.allCommands.length ≤ p.commands.length + 1 := by
  cases h : p.terminal <;> simp [allCommands, h]

omit [Scalar α] in
theorem Tiled.of_beside {p : Compiled α} {marks : List Nat} (whole : p.Whole)
    (counted : p.commands.length + 1 = marks.length)
    (beside : (p.allCommands.zip marks).Pairwise Beside)
    (covered : ∀ k < p.storage.length, ∃ c ∈ p.allCommands, c.first ≤ k ∧ k < c.stop) :
    p.Tiled marks := by
  have sized : ∀ c ∈ p.allCommands.zip marks, c.1.first ≤ c.1.stop := by
    intro c hc
    exact (whole.covers c.1 (List.of_mem_zip hc).1).1
  constructor
  case some => exact whole.some
  case within => exact whole.covers
  case ordered =>
    have short : p.allCommands.length ≤ marks.length := counted ▸ p.length_allCommands_le
    rw [← List.map_fst_zip short, List.pairwise_map]
    refine beside.imp_of_mem ?_
    intro c d hc hd h
    by_cases same : c.2 = d.2
    · have ends : c.1.first = d.1.first ∧ c.1.stop = d.1.stop := by
        simpa [Command.range] using h.1 same
      omega
    · have behind := h.2 same
      have := sized c hc
      have := sized d hd
      omega
  case counted => exact counted
  case beside =>
    refine beside.imp_of_mem ?_
    intro c d hc _ h
    refine ⟨h.1, fun other => ⟨h.2 other, ?_⟩⟩
    intro same
    have first : c.1.first = d.1.first := congrArg Prod.fst same
    have := h.2 other
    have := sized c hc
    omega
  case covered => exact covered

theorem Laid.tiled {p : Compiled α} {rounds : List Nat} {now : Nat} (h : p.Laid rounds now)
    (uid : Nat) : ({ p.sealed with uid := some uid } : Compiled α).Tiled (rounds ++ [now]) := by
  have whole := h.ranged.whole h.incomplete uid
  by_cases closing : (p.uncovered || p.commands.isEmpty) = true
  · have closed : p.sealed =
        { p with complete := true, terminal := some (.fill p.groupStart p.storage.length) } := by
      simp [Compiled.sealed, h.incomplete, closing]
    rw [closed] at whole ⊢
    apply Tiled.of_beside whole
    · simp [h.counted]
    · exact h.beside_next rfl
    · intro k hk
      by_cases before : k < p.groupStart
      · obtain ⟨c, hc, takes⟩ := h.covered k before
        exact ⟨c, List.mem_append_left _ hc, takes⟩
      · exact ⟨.fill p.groupStart p.storage.length, by simp [allCommands], Nat.le_of_not_lt before, hk⟩
  · have closed : p.sealed = { p with complete := true } := by
      simp [Compiled.sealed, h.incomplete, closing]
    have all : ({ p with complete := true, uid := some uid } : Compiled α).allCommands =
        p.commands := by
      simp [allCommands, h.ranged.terminal]
    rw [closed] at whole ⊢
    apply Tiled.of_beside whole
    · simp [h.counted]
    · rw [all, ← List.append_nil p.commands, List.zip_append h.counted, List.zip_nil_left,
        List.append_nil]
      exact h.beside
    · intro k hk
      rw [all]
      by_cases inGroup : p.inGroup = true
      · exact h.covers_group inGroup hk
      · have reached : p.storage.length ≤ p.groupStart := by
          simp [uncovered, inGroup] at closing
          exact closing.1
        exact h.covered k (Nat.lt_of_lt_of_le hk reached)

@[simp] theorem sealed_storage (p : Compiled α) : p.sealed.storage = p.storage := by
  unfold Compiled.sealed
  split
  · rfl
  · split <;> rfl

@[simp] theorem sealed_commands (p : Compiled α) : p.sealed.commands = p.commands := by
  unfold Compiled.sealed
  split
  · rfl
  · split <;> rfl

theorem sealed_complete (p : Compiled α) : p.sealed.complete = true := by
  unfold Compiled.sealed
  split
  · assumption
  · split <;> rfl

theorem Laid.terminal_sealed {p : Compiled α} {rounds : List Nat} {now : Nat}
    (h : p.Laid rounds now) :
    p.sealed.terminal = if p.uncovered || p.commands.isEmpty then
      some (.fill p.groupStart p.storage.length) else none := by
  by_cases closing : (p.uncovered || p.commands.isEmpty) = true
  · simp [Compiled.sealed, h.incomplete, closing]
  · simp [Compiled.sealed, h.incomplete, closing, h.ranged.terminal]

/-- A path that takes no more: whatever is tried fails and leaves it as it is, and
to finish it once more gives the same identity. -/
structure Shut (p : Compiled α) (uid : Nat) : Prop where
  refuses : ∀ step, ∃ broken, p.attempt step = .error broken
  unchanged : ∀ steps, p.run steps = p
  finished : ∀ next, p.finish next = (p, uid, next)

theorem Shut.of_complete {p : Compiled α} {uid : Nat} (complete : p.complete = true)
    (named : p.uid = some uid) : p.Shut uid := by
  have refuses : ∀ step, ∃ broken, p.attempt step = .error broken := by
    intro step
    cases step with
    | append op flags isCubic args m =>
      exact ⟨.operatorAfterEnd, by simp [attempt, append, ready, complete, Except.map]⟩
    | touch => exact ⟨.operatorAfterEnd, by simp [attempt, ready, complete]⟩
    | command c => exact ⟨.commandAfterEnd, by simp [attempt, addCommand, complete]⟩
  constructor
  case refuses => exact refuses
  case unchanged =>
    intro steps
    induction steps with
    | nil => rfl
    | cons step rest ih =>
      obtain ⟨broken, failed⟩ := refuses step
      rw [run, Compiled.step, failed]
      exact ih
  case finished =>
    intro next
    simp [finish, named, Compiled.sealed, complete]

def built (frame : FrameRef) (steps : List (BuildStep α)) : Compiled α := (empty frame).run steps

theorem laid_built (frame : FrameRef) (steps : List (BuildStep α)) :
    (built frame steps).Laid (BuildStep.rounds 0 steps) (steps.countP BuildStep.asks) := by
  have start : (empty frame : Compiled α).Laid [] 0 := .empty frame
  have laid := start.run steps
  rwa [List.nil_append, Nat.zero_add] at laid

theorem built_command (frame : FrameRef) (before : List (BuildStep α)) (c : Command α)
    (rest : List (BuildStep α)) :
    built frame (before ++ .command c :: rest) = ((built frame before).commanded c).run rest := by
  have made : (built frame before).attempt (.command c) = .ok ((built frame before).commanded c) :=
    addCommand_eq (laid_built frame before).incomplete c
  rw [built, run_append, run]
  change (step (built frame before) _).run rest = _
  rw [step_of_ok made]

/-- No command at all, or something appended after the last one, leaves segments
for the closing fill. -/
theorem closing_iff (frame : FrameRef) (steps : List (BuildStep α)) :
    ((built frame steps).uncovered || (built frame steps).commands.isEmpty) = true ↔
      (∀ step ∈ steps, step.asks = true) ∨ ∃ before c rest,
        steps = before ++ .command c :: rest ∧ (∀ step ∈ rest, step.asks = true) ∧
          (built frame before).storage.length < (built frame steps).storage.length := by
  have bare : (built frame steps).commands.isEmpty = true ↔ ∀ step ∈ steps, step.asks = true := by
    rw [← BuildStep.rounds_eq_nil_iff 0, ← List.length_eq_zero_iff, ← (laid_built frame steps).counted]
    simp
  have behind : ∀ before c rest, steps = before ++ .command c :: rest →
      (∀ step ∈ rest, step.asks = true) → ((built frame steps).uncovered = true ↔
        (built frame before).storage.length < (built frame steps).storage.length) := by
    rintro before c rest rfl all
    rw [built_command]
    have incomplete : ((built frame before).commanded c).complete = false :=
      (laid_built frame before).incomplete
    exact uncovered_iff incomplete rfl all
  rw [Bool.or_eq_true, bare]
  constructor
  · rintro (uncovered | all)
    · rcases BuildStep.exists_last_command steps with all | ⟨before, c, rest, split, all⟩
      · exact .inl all
      · exact .inr ⟨before, c, rest, split, all, (behind before c rest split all).mp uncovered⟩
    · exact .inl all
  · rintro (all | ⟨before, c, rest, split, all, longer⟩)
    · exact .inr all
    · exact .inl ((behind before c rest split all).mpr longer)

/-- Whatever is done to a new path succeeds until it is finished. Then its commands
tile its segments, a closing fill is among them exactly when no command was given or
segments came after the last, and nothing changes it any more. -/
theorem finish_tiles (frame : FrameRef) (steps : List (BuildStep α)) (next : Nat) :
    (∀ before step rest, steps = before ++ step :: rest →
      ∃ q, (built frame before).attempt step = .ok q) ∧
    ∃ path uid later, (built frame steps).finish next = (path, uid, later) ∧
      path.storage = (built frame steps).storage ∧ path.commands = (built frame steps).commands ∧
      path.Tiled (BuildStep.marks steps) ∧
      (∀ c ∈ path.terminal, c.kind = .fill) ∧
      (path.terminal.isSome = true ↔ (∀ step ∈ steps, step.asks = true) ∨
        ∃ before c rest, steps = before ++ .command c :: rest ∧
          (∀ step ∈ rest, step.asks = true) ∧
          (built frame before).storage.length < path.storage.length) ∧
      path.Shut uid := by
  have laid := laid_built frame steps
  have finished : (built frame steps).finish next =
      ({ (built frame steps).sealed with uid := some next }, next, next + 1) := by
    simp [finish, laid.unnamed]
  have terminal : (built frame steps).sealed.terminal.isSome = true ↔
      ((built frame steps).uncovered || (built frame steps).commands.isEmpty) = true := by
    rw [laid.terminal_sealed]
    split <;> simp_all
  refine ⟨fun before step _ _ => (laid_built frame before).attempt_ok step, _, _, _, finished,
    sealed_storage _, sealed_commands _, laid.tiled next, ?_, ?_, ?_⟩
  · intro c hc
    have filled : (built frame steps).sealed.terminal = some c := hc
    rw [laid.terminal_sealed] at filled
    split at filled
    · cases filled
      rfl
    · cases filled
  · rw [sealed_storage]
    exact terminal.trans (closing_iff frame steps)
  · exact .of_complete (sealed_complete _) rfl

end Compiled

end ShapeGrammar.Path
