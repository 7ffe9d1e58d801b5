import Mathlib.Data.List.Infix
import ShapeGrammar.Session

/-!
# Handles over time

A handle records how high the stack was and not what lay on it. As long as the
stack stays that high the handle resolves to the slots it was taken over, and
while the stack is lower it resolves to nothing. A stack that was cut below the
handle and has grown back over it makes the handle resolve once more, to
whatever lies there now.
-/

set_option autoImplicit false

namespace ShapeGrammar

namespace Stack

variable {α : Type}

/-- What changes a stack. Marks and handles are read off it and leave it as it is. -/
inductive Operation (α : Type) where
  | pushFrame
  | push (name : String) (binding : Binding α)
  | unwind (m : Mark)

/-- An operation that fails leaves the stack as it was. -/
def step (s : Stack α) : Operation α → Stack α
  | .pushFrame => s.pushFrame
  | .push name binding =>
    match s.push name binding with
    | .ok t => t
    | .error _ => s
  | .unwind m =>
    match s.unwind m with
    | .ok t => t
    | .error _ => s

def run (s : Stack α) : List (Operation α) → Stack α
  | [] => s
  | op :: rest => (s.step op).run rest

/-! ### What a step does -/

theorem step_push_cases (s : Stack α) (name : String) (binding : Binding α) :
    s.step (.push name binding) = s ∨
      s.step (.push name binding) = { s with slots := s.slots.push ⟨name, binding⟩ } := by
  by_cases taken : (findBelow s.slots name s.frameStart s.height).isSome
  · exact .inl (by rw [step, push, if_pos taken])
  · exact .inr (by rw [step, push, if_neg taken])

theorem step_unwind_cases (s : Stack α) (m : Mark) :
    s.step (.unwind m) = s ∨ s.step (.unwind m) =
      { s with slots := s.slots.shrink m.slots, frames := s.frames.shrink m.frames } := by
  by_cases below : s.height < m.slots ∨ s.depth < m.frames
  · exact .inl (by rw [step, unwind, if_pos below])
  · exact .inr (by rw [step, unwind, if_neg below])

theorem session_step (s : Stack α) (op : Operation α) : (s.step op).session = s.session := by
  cases op with
  | pushFrame => rfl
  | push name binding => rcases s.step_push_cases name binding with same | more <;> simp [*]
  | unwind m => rcases s.step_unwind_cases m with same | less <;> simp [*]

/-- What lies below the stack both before and after a step is left alone. -/
theorem shrink_step {s : Stack α} {op : Operation α} {n : Nat} (before : n ≤ s.height)
    (after : n ≤ (s.step op).height) : (s.step op).slots.shrink n = s.slots.shrink n := by
  cases op with
  | pushFrame => rfl
  | push name binding =>
    rcases s.step_push_cases name binding with same | more
    · rw [same]
    · rw [more]
      simp only [Array.shrink_eq_take, Array.take_eq_extract, Array.extract_push]
      exact if_pos before
  | unwind m =>
    rcases s.step_unwind_cases m with same | less
    · rw [same]
    · -- An unwinding that reached below would leave the stack too low.
      have kept : n ≤ m.slots := by
        rw [less] at after
        simp only [height, Array.shrink_eq_take, Array.take_eq_extract, Array.size_extract] at after
        omega
      rw [less]
      simp only [Array.shrink_eq_take, Array.take_eq_extract, Array.extract_extract]
      simp [kept]

theorem session_run (s : Stack α) (ops : List (Operation α)) : (s.run ops).session = s.session := by
  induction ops generalizing s with
  | nil => rfl
  | cons op rest ih => exact (ih _).trans (s.session_step op)

def Dips (s : Stack α) (n : Nat) (ops : List (Operation α)) : Prop :=
  ∃ before, before <+: ops ∧ (s.run before).height < n

theorem dips_cons {s : Stack α} {n : Nat} {op : Operation α} {rest : List (Operation α)} :
    s.Dips n (op :: rest) ↔ s.height < n ∨ (s.step op).Dips n rest := by
  constructor
  · rintro ⟨before, start, low⟩
    cases before with
    | nil => exact .inl low
    | cons first before =>
      obtain ⟨rfl, start'⟩ := List.cons_prefix_cons.mp start
      exact .inr ⟨before, start', low⟩
  · rintro (low | ⟨before, start, low⟩)
    · exact ⟨[], List.nil_prefix, low⟩
    · exact ⟨op :: before, List.cons_prefix_cons.mpr ⟨rfl, start⟩, low⟩

instance decidableDips (s : Stack α) (n : Nat) (ops : List (Operation α)) :
    Decidable (s.Dips n ops) :=
  decidable_of_iff (∃ before ∈ ops.inits, (s.run before).height < n)
    (exists_congr fun before => and_congr_left' (List.mem_inits before ops))

/-- Slots that the stack never dips below stay as they are. -/
theorem shrink_run {s : Stack α} {n : Nat} {ops : List (Operation α)} (low : n ≤ s.height)
    (stays : ¬s.Dips n ops) : (s.run ops).slots.shrink n = s.slots.shrink n := by
  induction ops generalizing s with
  | nil => rfl
  | cons op rest ih =>
    have later : ¬(s.step op).Dips n rest := fun dips => stays (dips_cons.mpr (.inr dips))
    have still : n ≤ (s.step op).height :=
      not_lt.mp fun less => later ⟨[], List.nil_prefix, less⟩
    exact (ih still later).trans (shrink_step low still)

/-! ### What a handle resolves to -/

theorem resolve_foreign {s : Stack α} {f : FrameRef} (foreign : f.session ≠ s.session) :
    s.resolve f = none :=
  if_neg fun own => foreign own.1

/-- A handle looks at nothing but heights. -/
theorem resolve_run (s : Stack α) (ops : List (Operation α)) :
    (s.run ops).resolve s.frameRef =
      if s.height ≤ (s.run ops).height then some ((s.run ops).slots.shrink s.height) else none := by
  simp [resolve, frameRef, session_run]

theorem resolve_run_of_stays {s : Stack α} {ops : List (Operation α)}
    (stays : ¬s.Dips s.height ops) : (s.run ops).resolve s.frameRef = some s.slots := by
  have high : s.height ≤ (s.run ops).height :=
    not_lt.mp fun low => stays ⟨ops, List.prefix_rfl, low⟩
  have same : s.slots.shrink s.height = s.slots := by simp [height]
  rw [resolve_run, if_pos high, shrink_run le_rfl stays, same]

theorem resolve_run_eq_none_iff (s : Stack α) (ops : List (Operation α)) :
    (s.run ops).resolve s.frameRef = none ↔ (s.run ops).height < s.height := by
  rw [resolve_run]
  split
  case isTrue high => simpa using high
  case isFalse low => simpa using low

/-- Two sessions, of which the second is begun when the first is counted, have
stacks of different numbers, and the first has not the number of no session. -/
theorem session_begin_run {σ : Type} (seed seed' : UInt64) {store store' : Store α} (r r' : σ)
    (counted : (Session.begin seed store r).store.sessions ≤ store'.sessions)
    (first second : List (Operation α)) :
    ((Session.begin seed store r).stack.run first).session ≠
      ((Session.begin seed' store' r').stack.run second).session ∧
    ((Session.begin seed store r).stack.run first).session ≠ FrameRef.detached.session := by
  have number : ((Session.begin seed store r).stack.run first).session = store.sessions + 1 :=
    session_run _ first
  have number' : ((Session.begin seed' store' r').stack.run second).session =
      store'.sessions + 1 := session_run _ second
  have before : store.sessions + 1 ≤ store'.sessions := counted
  rw [number, number']
  exact ⟨by omega, Nat.succ_ne_zero _⟩

/-- A handle resolves to the slots it was taken over as long as none of them is
unwound. After that it resolves to nothing exactly while the stack is lower than
the handle, so that it comes to name other slots just where the stack has grown
back and they are not the same. In a stack of another session it never resolves,
and a detached handle resolves in none. -/
theorem handle_resolves {σ : Type} (s : Stack α) (ops : List (Operation α)) :
    (¬s.Dips s.height ops → (s.run ops).resolve s.frameRef = some s.slots) ∧
    (s.Dips s.height ops →
      ((s.run ops).resolve s.frameRef = none ↔ (s.run ops).height < s.height)) ∧
    ((∀ slots, (s.run ops).resolve s.frameRef = some slots → slots = s.slots) ↔
      ¬(s.Dips s.height ops ∧ s.height ≤ (s.run ops).height ∧
        (s.run ops).slots.shrink s.height ≠ s.slots)) ∧
    ∀ (seed seed' : UInt64) (store store' : Store α) (r r' : σ)
        (first second : List (Operation α)),
      (Session.begin seed store r).store.sessions ≤ store'.sessions →
      ((Session.begin seed' store' r').stack.run second).resolve
          ((Session.begin seed store r).stack.run first).frameRef = none ∧
      ((Session.begin seed store r).stack.run first).resolve
          ((Session.begin seed' store' r').stack.run second).frameRef = none ∧
      ((Session.begin seed store r).stack.run first).resolve .detached = none := by
  refine ⟨resolve_run_of_stays, fun _ => s.resolve_run_eq_none_iff ops, ?_, ?_⟩
  · constructor
    · rintro faithful ⟨-, high, other⟩
      exact other (faithful _ ((s.resolve_run ops).trans (if_pos high)))
    · intro fine slots found
      by_cases dips : s.Dips s.height ops
      · rw [resolve_run] at found
        split at found
        case isTrue high =>
          obtain rfl := Option.some.inj found
          exact not_not.mp fun other => fine ⟨dips, high, other⟩
        case isFalse low => cases found
      · rw [resolve_run_of_stays dips] at found
        exact (Option.some.inj found).symm
  · intro seed seed' store store' r r' first second counted
    obtain ⟨apart, numbered⟩ := session_begin_run seed seed' r r' counted first second
    exact ⟨resolve_foreign apart, resolve_foreign apart.symm, resolve_foreign numbered.symm⟩

namespace Sample

def flag (b : Bool) : Binding Unit := .value (.flag b)

def opened : Session Unit Unit := .begin 0 .empty ()

def bare : Stack Unit := opened.stack

def one : Stack Unit := bare.step (.push "a" (flag true))

def above : List (Operation Unit) := [.pushFrame, .push "b" (flag false), .unwind one.mark]

def replaced : List (Operation Unit) := [.unwind bare.mark, .push "b" (flag false)]

end Sample

theorem handle_resolves_sample :
    (¬Sample.one.Dips 1 Sample.above ∧ (Sample.one.run Sample.above).resolve Sample.one.frameRef =
      some #[⟨"a", Sample.flag true⟩]) ∧
    (Sample.one.Dips 1 [.unwind Sample.bare.mark] ∧
      (Sample.one.run [.unwind Sample.bare.mark]).resolve Sample.one.frameRef = none) ∧
    (Session.begin 0 Sample.opened.store ()).stack.resolve Sample.one.frameRef = none := by
  have stays : ¬Sample.one.Dips 1 Sample.above := by decide
  have dips : Sample.one.Dips 1 [.unwind Sample.bare.mark] := by decide
  obtain ⟨resolves, -⟩ := handle_resolves (σ := Unit) Sample.one Sample.above
  obtain ⟨-, fades, -, foreign⟩ := handle_resolves (σ := Unit) Sample.one [.unwind Sample.bare.mark]
  refine ⟨⟨stays, resolves stays⟩, ⟨dips, (fades dips).mpr (by decide)⟩, ?_⟩
  exact (foreign 0 0 .empty Sample.opened.store () () [.push "a" (Sample.flag true)] [] le_rfl).1

/-- A handle taken over one slot resolves to another, once the stack was unwound to
where it was before the first and the other is pushed. -/
theorem handle_resolves_astray :
    (Sample.bare.slots.toList <+: Sample.one.slots.toList ∧
      Sample.bare.frames.toList <+: Sample.one.frames.toList) ∧
    Sample.one.slots = #[⟨"a", Sample.flag true⟩] ∧
    (Sample.one.run Sample.replaced).resolve Sample.one.frameRef =
      some #[⟨"b", Sample.flag false⟩] ∧
    #[⟨"b", Sample.flag false⟩] ≠ Sample.one.slots := by
  refine ⟨⟨List.nil_prefix, List.nil_prefix⟩, rfl, rfl, fun same => ?_⟩
  have names := congrArg (fun slots => slots.toList.map Slot.name) same
  exact absurd names (by decide)

end Stack

end ShapeGrammar
