import Mathlib.Data.List.Nodup
import ShapeGrammar.Switch

/-!
# The cases of a switch

A switch is made by calls that add cases or set the default, and some of them
fail. What it does afterwards is told by the additions that succeeded, in order:
no key is in two of them, a key selects the body it came with, and any other key
selects the default.
-/

set_option autoImplicit false

namespace ShapeGrammar.Switch

variable {β : Type}

inductive Call (β : Type) where
  | add (keys : List Int) (body : β)
  | setDefault (body : β)

def attempt (s : Switch β) : Call β → Except Problem (Switch β)
  | .add keys body => s.addCase keys body
  | .setDefault body => .ok { s with default := body }

/-- A call that fails leaves the switch as it was. -/
def step (s : Switch β) (call : Call β) : Switch β :=
  match s.attempt call with
  | .ok t => t
  | .error _ => s

def run (s : Switch β) : List (Call β) → Switch β
  | [] => s
  | call :: rest => (s.step call).run rest

def added (s : Switch β) : List (Call β) → List (List Int × β)
  | [] => []
  | .add keys body :: rest =>
    match s.addCase keys body with
    | .ok t => (keys, body) :: t.added rest
    | .error _ => s.added rest
  | .setDefault body :: rest => ({ s with default := body } : Switch β).added rest

def lastDefault (default : β) : List (Call β) → β
  | [] => default
  | .add _ _ :: rest => lastDefault default rest
  | .setDefault body :: rest => lastDefault body rest

theorem run_append (s : Switch β) (calls rest : List (Call β)) :
    s.run (calls ++ rest) = (s.run calls).run rest := by
  induction calls generalizing s with
  | nil => rfl
  | cons call calls ih => exact ih _

/-! ### One addition -/

theorem clash?_eq_none_iff {taken keys : List Int} :
    clash? taken keys = none ↔ keys.Nodup ∧ ∀ key ∈ keys, key ∉ taken := by
  induction keys generalizing taken with
  | nil => simp [clash?]
  | cons key rest ih =>
    by_cases h : key ∈ taken
    · simp [clash?, h]
    · simp only [clash?, List.contains_iff_mem, h, if_false, ih, List.nodup_cons, List.mem_cons,
        not_or, forall_eq_or_imp, not_false_eq_true, true_and]
      constructor
      · rintro ⟨distinct, apart⟩
        exact ⟨⟨fun again => (apart key again).1 rfl, distinct⟩, fun k hk => (apart k hk).2⟩
      · rintro ⟨⟨once, distinct⟩, apart⟩
        exact ⟨distinct, fun k hk => ⟨fun same => once (same ▸ hk), apart k hk⟩⟩

def extended (s : Switch β) (keys : List Int) (body : β) : Switch β :=
  { s with
    keys := s.keys ++ keys.map fun key => (key, s.bodies.length)
    bodies := s.bodies ++ [body] }

def Fresh (s : Switch β) (keys : List Int) : Prop :=
  keys.Nodup ∧ ∀ key ∈ keys, key ∉ s.keys.map Prod.fst

theorem addCase_of_fresh {s : Switch β} {keys : List Int} (fresh : s.Fresh keys) (body : β) :
    s.addCase keys body = .ok (s.extended keys body) := by
  rw [addCase, clash?_eq_none_iff.mpr fresh]
  rfl

theorem addCase_of_not_fresh {s : Switch β} {keys : List Int} (h : ¬s.Fresh keys) (body : β) :
    ∃ p, s.addCase keys body = .error p := by
  cases found : clash? (s.keys.map Prod.fst) keys with
  | none => exact absurd (clash?_eq_none_iff.mp found) h
  | some key => exact ⟨.caseTaken key, by rw [addCase, found]⟩

theorem addCase_fails_iff (s : Switch β) (keys : List Int) (body : β) :
    (∃ p, s.addCase keys body = .error p) ↔ ¬s.Fresh keys := by
  refine ⟨?_, fun h => addCase_of_not_fresh h body⟩
  rintro ⟨p, failed⟩ fresh
  rw [addCase_of_fresh fresh body] at failed
  cases failed

theorem step_of_fresh {s : Switch β} {keys : List Int} (fresh : s.Fresh keys) (body : β) :
    s.step (.add keys body) = s.extended keys body := by
  rw [step, attempt, addCase_of_fresh fresh body]

theorem step_of_not_fresh {s : Switch β} {keys : List Int} (h : ¬s.Fresh keys) (body : β) :
    s.step (.add keys body) = s := by
  obtain ⟨p, failed⟩ := addCase_of_not_fresh h body
  rw [step, attempt, failed]

theorem added_of_fresh {s : Switch β} {keys : List Int} (fresh : s.Fresh keys) (body : β)
    (rest : List (Call β)) :
    s.added (.add keys body :: rest) = (keys, body) :: (s.extended keys body).added rest := by
  rw [added, addCase_of_fresh fresh body]

theorem added_of_not_fresh {s : Switch β} {keys : List Int} (h : ¬s.Fresh keys) (body : β)
    (rest : List (Call β)) : s.added (.add keys body :: rest) = s.added rest := by
  obtain ⟨p, failed⟩ := addCase_of_not_fresh h body
  rw [added, failed]

/-! ### What the additions determine -/

structure Holds (s : Switch β) (entries : List (List Int × β)) : Prop where
  keys : s.keys = entries.zipIdx.flatMap fun entry => entry.1.1.map fun key => (key, entry.2)
  bodies : s.bodies = entries.map Prod.snd
  distinct : (entries.flatMap Prod.fst).Nodup

namespace Holds

variable {s : Switch β} {entries : List (List Int × β)}

theorem map_keys (h : s.Holds entries) : s.keys.map Prod.fst = entries.flatMap Prod.fst := by
  have firsts : ∀ n, (entries.zipIdx n).flatMap (fun entry => entry.1.1) =
      entries.flatMap Prod.fst := by
    intro n
    rw [← List.flatMap_map, List.zipIdx_map_fst]
  rw [h.keys, List.map_flatMap]
  simpa [Function.comp_def] using firsts 0

theorem mem_keys_iff (h : s.Holds entries) {key : Int} {i : Nat} :
    (key, i) ∈ s.keys ↔ ∃ entry, entries[i]? = some entry ∧ key ∈ entry.1 := by
  simp only [h.keys, List.mem_flatMap, List.mem_map, Prod.exists, List.mk_mem_zipIdx_iff_getElem?,
    Prod.mk.injEq]
  grind

theorem registered_iff (h : s.Holds entries) {key : Int} :
    key ∈ s.keys.map Prod.fst ↔ ∃ entry ∈ entries, key ∈ entry.1 := by
  rw [h.map_keys, List.mem_flatMap]

theorem fresh_iff (h : s.Holds entries) {keys : List Int} :
    s.Fresh keys ↔ keys.Nodup ∧ ¬∃ key ∈ keys, ∃ entry ∈ entries, key ∈ entry.1 := by
  simp only [Fresh, h.registered_iff, not_exists, not_and]

theorem lookup_eq_some (h : s.Holds entries) {key : Int} {i : Nat} (mem : (key, i) ∈ s.keys) :
    s.keys.lookup key = some i := by
  obtain ⟨before, rest, split⟩ := List.append_of_mem mem
  refine List.lookup_eq_some_iff.mpr ⟨before, rest, split, fun other found => ?_⟩
  have distinct := h.distinct
  rw [← h.map_keys, split, List.map_append, List.nodup_append] at distinct
  have apart := distinct.2.2 other.1 (List.mem_map_of_mem found) key (by simp)
  simpa using apart.symm

theorem case_eq (h : s.Holds entries) {i : Nat} {keys : List Int} {body : β}
    (found : entries[i]? = some (keys, body)) {key : Int} (mem : key ∈ keys) :
    s.case key = body := by
  have looked := h.lookup_eq_some (h.mem_keys_iff.mpr ⟨_, found, mem⟩)
  simp [case, looked, h.bodies, found]

theorem case_eq_default (h : s.Holds entries) {key : Int}
    (missing : ¬∃ entry ∈ entries, key ∈ entry.1) : s.case key = s.default := by
  have none : s.keys.lookup key = none := by
    rw [List.lookup_eq_none_iff]
    intro pair mem
    have other : pair.1 ≠ key := by
      rintro rfl
      exact missing (h.registered_iff.mp (List.mem_map_of_mem mem))
    simpa using other.symm
  rw [case, none]

theorem unique (h : s.Holds entries) {i j : Nat} {entry other : List Int × β}
    (found : entries[i]? = some entry) (found' : entries[j]? = some other) {key : Int}
    (mem : key ∈ entry.1) (mem' : key ∈ other.1) : i = j := by
  have looked := h.lookup_eq_some (h.mem_keys_iff.mpr ⟨_, found, mem⟩)
  have looked' := h.lookup_eq_some (h.mem_keys_iff.mpr ⟨_, found', mem'⟩)
  exact Option.some.inj (looked.symm.trans looked')

theorem lt_length_bodies (h : s.Holds entries) {key : Int} {i : Nat} (mem : (key, i) ∈ s.keys) :
    i < s.bodies.length := by
  obtain ⟨entry, found, -⟩ := h.mem_keys_iff.mp mem
  rw [h.bodies, List.length_map]
  exact (List.getElem?_eq_some_iff.mp found).1

/-! ### What a call and a run keep -/

theorem empty (default : β) : (Switch.empty default).Holds [] := ⟨rfl, rfl, .nil⟩

theorem setDefault (h : s.Holds entries) (body : β) :
    ({ s with default := body } : Switch β).Holds entries :=
  ⟨h.keys, h.bodies, h.distinct⟩

theorem extended (h : s.Holds entries) {keys : List Int} (fresh : s.Fresh keys) (body : β) :
    (s.extended keys body).Holds (entries ++ [(keys, body)]) where
  keys := by simp [Switch.extended, h.keys, h.bodies, List.zipIdx_append]
  bodies := by simp [Switch.extended, h.bodies]
  distinct := by
    rw [List.flatMap_append, List.flatMap_singleton, List.nodup_append, ← h.map_keys]
    refine ⟨h.map_keys ▸ h.distinct, fresh.1, ?_⟩
    rintro key taken _ mem rfl
    exact fresh.2 key mem taken

theorem run (h : s.Holds entries) (calls : List (Call β)) :
    (s.run calls).Holds (entries ++ s.added calls) := by
  induction calls generalizing s entries with
  | nil => simpa [Switch.run, added] using h
  | cons call rest ih =>
    cases call with
    | add keys body =>
      by_cases fresh : s.Fresh keys
      · have later := ih (h.extended fresh body)
        rw [List.append_assoc] at later
        rw [Switch.run, step_of_fresh fresh body, added_of_fresh fresh body]
        exact later
      · rw [Switch.run, step_of_not_fresh fresh body, added_of_not_fresh fresh body]
        exact ih h
    | setDefault body => exact ih (h.setDefault body)

end Holds

theorem default_run (s : Switch β) (calls : List (Call β)) :
    (s.run calls).default = lastDefault s.default calls := by
  induction calls generalizing s with
  | nil => rfl
  | cons call rest ih =>
    cases call with
    | add keys body =>
      by_cases fresh : s.Fresh keys
      · rw [run, step_of_fresh fresh body]
        exact ih _
      · rw [run, step_of_not_fresh fresh body]
        exact ih s
    | setDefault body => exact ih _

/-- Whatever calls make a switch, an addition fails just when a key is twice in its
list or in the list of an addition that succeeded, and changes nothing then. A key
selects the body of the one addition that has it, and the default if there is none.
Every index leads to a body, and the bodies are those of the additions, the default
last. -/
theorem cases_follow_additions (default : β) (calls : List (Call β)) :
    let s := (empty default).run calls
    let entries := (empty default).added calls
    (∀ keys body,
      ((∃ p, s.addCase keys body = .error p) ↔
        ¬keys.Nodup ∨ ∃ key ∈ keys, ∃ entry ∈ entries, key ∈ entry.1) ∧
      ((∃ p, s.addCase keys body = .error p) →
        (empty default).run (calls ++ [.add keys body]) = s)) ∧
    (∀ key,
      (∀ (i : Nat) keys body, entries[i]? = some (keys, body) → key ∈ keys → s.case key = body ∧
        ∀ (j : Nat) keys' body', entries[j]? = some (keys', body') → key ∈ keys' → j = i) ∧
      ((¬∃ entry ∈ entries, key ∈ entry.1) → s.case key = lastDefault default calls)) ∧
    (∀ key i, (key, i) ∈ s.keys → i < s.bodies.length) ∧
    s.allBodies = entries.map Prod.snd ++ [lastDefault default calls] := by
  intro s entries
  have holds : s.Holds entries := (Holds.empty default).run calls
  have last : s.default = lastDefault default calls := default_run (empty default) calls
  refine ⟨fun keys body => ⟨?_, fun failed => ?_⟩, fun key => ⟨?_, fun missing => ?_⟩, ?_, ?_⟩
  · rw [addCase_fails_iff, holds.fresh_iff, not_and_or, not_not]
  · rw [run_append]
    exact step_of_not_fresh ((s.addCase_fails_iff keys body).mp failed) body
  · intro i keys body found mem
    refine ⟨holds.case_eq found mem, fun j keys' body' found' mem' => ?_⟩
    exact holds.unique found' found mem' mem
  · rw [holds.case_eq_default missing, last]
  · exact fun key i mem => holds.lt_length_bodies mem
  · rw [allBodies, holds.bodies, last]

end ShapeGrammar.Switch
