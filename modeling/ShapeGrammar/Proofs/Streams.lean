import Mathlib.Data.Set.Finite.Basic
import ShapeGrammar.Proofs.Sample

/-!
# Streams that stay apart

To advance a source is to add three shifts of its state into it, one after the other.
None of them loses anything, and nought is the only word that they leave where it is;
that word is replaced before them. So a source never runs dry, and sources in different
states go on in different states, whatever is drawn from them. A peek has no part in
this: it reads the state and leaves it.
-/

set_option autoImplicit false

namespace ShapeGrammar

namespace Random

/-! ### Shifts -/

section Shifts

variable {w x y k : UInt64}

theorem eq_zero_of_shiftRight (shifts : k.toNat % 64 ≠ 0) (fixed : w >>> k = w) : w = 0 := by
  have value : w.toNat / 2 ^ (k.toNat % 64) = w.toNat := by
    rw [← Nat.shiftRight_eq_div_pow, ← UInt64.toNat_shiftRight, fixed]
  by_contra other
  have positive : 0 < w.toNat := Nat.pos_of_ne_zero fun zero => other (UInt64.toNat_inj.mp zero)
  exact (Nat.div_lt_self positive (Nat.one_lt_two_pow shifts)).ne value

/-- Its lowest bit would have come from below it. -/
theorem eq_zero_of_shiftLeft (shifts : k.toNat % 64 ≠ 0) (fixed : w <<< k = w) : w = 0 := by
  have bits : ∀ i, w.toNat.testBit i = false := by
    intro i
    induction i using Nat.strong_induction_on with
    | h i below =>
      rw [← fixed, UInt64.toNat_shiftLeft, Nat.testBit_mod_two_pow, Nat.testBit_shiftLeft]
      by_cases within : k.toNat % 64 ≤ i
      · rw [below (i - k.toNat % 64) (by omega), Bool.and_false, Bool.and_false]
      · rw [decide_eq_false within, Bool.false_and, Bool.and_false]
  exact UInt64.toNat_inj.mp (Nat.eq_of_testBit_eq fun i => (bits i).trans (Nat.zero_testBit i).symm)

/-- A map that is additive, and moves every word but nought, can be added into a word
without loss. -/
theorem xor_map_inj {f : UInt64 → UInt64} (additive : ∀ x y, f (x ^^^ y) = f x ^^^ f y)
    (moves : ∀ w, f w = w → w = 0) : x ^^^ f x = y ^^^ f y ↔ x = y := by
  constructor
  · intro same
    have fixed : x ^^^ f (x ^^^ y) = x ^^^ (x ^^^ y) := by
      calc x ^^^ f (x ^^^ y) = x ^^^ f x ^^^ f y := by rw [additive, UInt64.xor_assoc]
        _ = y := by rw [same, UInt64.xor_assoc, UInt64.xor_self, UInt64.xor_zero]
        _ = x ^^^ (x ^^^ y) := by rw [← UInt64.xor_assoc, UInt64.xor_self, UInt64.zero_xor]
    exact UInt64.xor_eq_zero_iff.mp (moves _ ((UInt64.xor_right_inj x).mp fixed))
  · exact fun same => same ▸ rfl

theorem xor_shiftRight_inj (shifts : k.toNat % 64 ≠ 0) :
    x ^^^ (x >>> k) = y ^^^ (y >>> k) ↔ x = y :=
  xor_map_inj (f := (· >>> k)) (fun _ _ => UInt64.shiftRight_xor ..)
    fun _ => eq_zero_of_shiftRight shifts

theorem xor_shiftLeft_inj (shifts : k.toNat % 64 ≠ 0) :
    x ^^^ (x <<< k) = y ^^^ (y <<< k) ↔ x = y :=
  xor_map_inj (f := (· <<< k)) (fun _ _ => UInt64.shiftLeft_xor ..)
    fun _ => eq_zero_of_shiftLeft shifts

end Shifts

/-! ### One advance -/

def seeded (w : UInt64) : UInt64 := if w = 0 then defaultSeed else w

def shifted (w : UInt64) : UInt64 :=
  let b := w ^^^ (w >>> 12)
  let c := b ^^^ (b <<< 25)
  c ^^^ (c >>> 27)

theorem bump_eq (r : Random) : r.bump = ⟨shifted (seeded r.state)⟩ := rfl

theorem shifted_inj {x y : UInt64} : shifted x = shifted y ↔ x = y := by
  unfold shifted
  rw [xor_shiftRight_inj (by decide), xor_shiftLeft_inj (by decide),
    xor_shiftRight_inj (by decide)]

theorem shifted_zero : shifted 0 = 0 := rfl

theorem seeded_ne_zero (w : UInt64) : seeded w ≠ 0 := by
  unfold seeded
  split
  · decide
  · assumption

theorem bump_state_ne_zero (r : Random) : r.bump.state ≠ 0 := by
  intro zero
  rw [bump_eq, ← shifted_zero, shifted_inj] at zero
  exact seeded_ne_zero r.state zero

/-- Sources that meet have been in one state before, but for those at nought and at the
seed that replaces it. -/
theorem bump_eq_iff {r r' : Random} :
    r.bump = r'.bump ↔ r = r' ∨ (r = ⟨0⟩ ∧ r' = initial) ∨ (r = initial ∧ r' = ⟨0⟩) := by
  obtain ⟨w⟩ := r
  obtain ⟨w'⟩ := r'
  rw [bump_eq, bump_eq, mk.injEq, shifted_inj]
  simp only [mk.injEq, initial]
  unfold seeded
  split <;> split <;> simp_all [eq_comm]

theorem bump_bijOn : Set.BijOn bump {r | r.state ≠ 0} {r | r.state ≠ 0} := by
  have finite : Finite Random :=
    Finite.of_injective (fun r => r.state.toFin) fun r r' same => by
      cases r
      cases r'
      exact congrArg mk (UInt64.toFin_inj.mp same)
  -- Among finitely many states it is enough that no two meet.
  have within : Set.MapsTo bump {r | r.state ≠ 0} {r | r.state ≠ 0} :=
    fun r _ => r.bump_state_ne_zero
  refine ((Set.toFinite _).injOn_iff_bijOn_of_mapsTo within).mp fun r live r' live' same => ?_
  rcases bump_eq_iff.mp same with same | ⟨rfl, -⟩ | ⟨-, rfl⟩
  · exact same
  · exact absurd rfl live
  · exact absurd rfl live'

/-! ### Draws -/

inductive Reading where
  | lower
  | upper
  | signed
  | positive
  | unsigned
  deriving DecidableEq, Repr

structure Draw where
  reading : Reading
  advance : Bool
  deriving DecidableEq, Repr

def Draw.IsPeek (d : Draw) : Prop := d.advance = false

theorem Draw.isPeek (reading : Reading) : (⟨reading, false⟩ : Draw).IsPeek := rfl

inductive Output (α : Type) where
  | number (x : α)
  | integer (n : Int)
  | word (w : UInt64)

def read (α : Type) [Scalar α] (r : Random) : Reading → Output α
  | .lower => .number (r.lower α)
  | .upper => .number (r.upper α)
  | .signed => .integer r.signed
  | .positive => .integer r.positive
  | .unsigned => .word r.word

def after : List Draw → Random → Random
  | [], r => r
  | d :: rest, r => after rest (r.step d.advance)

def drawn (α : Type) [Scalar α] : List Draw → Random → List (Draw × Output α)
  | [], _ => []
  | d :: rest, r => (d, (r.step d.advance).read α d.reading) :: drawn α rest (r.step d.advance)

def advances (draws : List Draw) : Nat := draws.countP Draw.advance

theorem after_eq_iterate (draws : List Draw) (r : Random) :
    after draws r = bump^[advances draws] r := by
  induction draws generalizing r with
  | nil => rfl
  | cons d rest ih =>
    obtain ⟨reading, advance⟩ := d
    rw [after, ih]
    cases advance with
    | false => simp [advances, step]
    | true => simp [advances, step]

/-- The second list has further elements among those of the first, all of one sort. -/
inductive Woven {β : Type} (sort : β → Prop) : List β → List β → Prop
  | nil : Woven sort [] []
  | keep (b : β) {xs ys : List β} (h : Woven sort xs ys) : Woven sort (b :: xs) (b :: ys)
  | add {b : β} (hb : sort b) {xs ys : List β} (h : Woven sort xs ys) : Woven sort xs (b :: ys)

/-- Peeks come and go: the other draws yield what they yield without them. -/
theorem drawn_woven (α : Type) [Scalar α] {draws draws' : List Draw}
    (h : Woven Draw.IsPeek draws draws') (r : Random) :
    after draws' r = after draws r ∧
      Woven (fun y => y.1.IsPeek) (drawn α draws r) (drawn α draws' r) := by
  induction h generalizing r with
  | nil => exact ⟨rfl, .nil⟩
  | keep d h ih => exact ⟨(ih _).1, .keep _ (ih _).2⟩
  | @add d peek xs ys h ih =>
    have still : r.step d.advance = r := by rw [peek]; rfl
    rw [after, drawn, still]
    refine ⟨(ih r).1, .add ?_ (ih r).2⟩
    exact peek

/-- A source never comes to nought. Its states but nought are permuted by an advance, so
that two sources that are in different ones stay so, however they are drawn from. And
peeks make no difference to the state or to any other draw. -/
theorem streams_stay_apart (α : Type) [Scalar α] :
    (∀ r : Random, r.bump.state ≠ 0) ∧
    Set.BijOn bump {r | r.state ≠ 0} {r | r.state ≠ 0} ∧
    bump ⟨0⟩ = bump initial ∧
    (∀ (n : Nat) (draws draws' : List Draw), advances draws = n → advances draws' = n →
      ∀ r r' : Random, r.state ≠ 0 → r'.state ≠ 0 → r ≠ r' → after draws r ≠ after draws' r') ∧
    (∀ draws draws' : List Draw, Woven Draw.IsPeek draws draws' → ∀ r,
      after draws' r = after draws r ∧
        Woven (fun y => y.1.IsPeek) (drawn α draws r) (drawn α draws' r)) := by
  refine ⟨bump_state_ne_zero, bump_bijOn, rfl, ?_, fun _ _ woven r => drawn_woven α woven r⟩
  intro n draws draws' count count' r r' live live' other same
  rw [after_eq_iterate, after_eq_iterate, count, count'] at same
  exact other ((bump_bijOn.injOn.iterate bump_bijOn.mapsTo n) live live' same)

def pair : List Draw := [⟨.lower, true⟩, ⟨.unsigned, true⟩]

def watched : List Draw := [⟨.upper, false⟩, ⟨.lower, true⟩, ⟨.positive, false⟩, ⟨.unsigned, true⟩]

theorem pair_watched : Woven Draw.IsPeek pair watched :=
  .add (Draw.isPeek .upper) (.keep _ (.add (Draw.isPeek .positive) (.keep _ .nil)))

theorem streams_stay_apart_watched :
    advances pair = 2 ∧ advances watched = 2 ∧ initial.state ≠ 0 ∧ (⟨1⟩ : Random).state ≠ 0 ∧
    initial ≠ ⟨1⟩ ∧ after pair initial ≠ after watched ⟨1⟩ ∧
    Woven Draw.IsPeek pair watched ∧ after watched initial = after pair initial := by
  have two : advances pair = 2 := rfl
  have two' : advances watched = 2 := rfl
  have live : initial.state ≠ 0 := by decide
  have live' : (⟨1⟩ : Random).state ≠ 0 := by decide
  have other : initial ≠ ⟨1⟩ := by decide
  obtain ⟨-, -, -, apart, peeks⟩ := streams_stay_apart Rat
  exact ⟨two, two', live, live', other, apart 2 _ _ two two' _ _ live live' other, pair_watched,
    (peeks _ _ pair_watched initial).1⟩

end Random

end ShapeGrammar
