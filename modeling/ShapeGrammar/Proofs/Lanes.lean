import ShapeGrammar.Expansion
import ShapeGrammar.Proofs.Sample
import ShapeGrammar.Proofs.Streams

/-!
# Texts in the lanes of a seed

Each byte of a text goes to the lane of its position and to no other, so the lanes of
the mixed state tell the bytes again, as long as the eighth lane is not filled. Where it
is, the state advances once, and all that can be lost is the difference between nought
and the seed that replaces it. A variation and a name share one running position: what
the state tells is the two written one after the other, and not where one ends and the
other begins.
-/

set_option autoImplicit false

namespace ShapeGrammar

namespace Random

def lane (r : Random) (i : Nat) : UInt8 := (r.state >>> (8 * i).toUInt64).toUInt8

theorem toNat_shift {i : Nat} (few : i < 8) : (8 * i).toUInt64.toNat % 64 = 8 * i := by
  simp only [Nat.toUInt64, UInt64.toNat_ofNat']
  omega

theorem toNat_placed (byte : UInt8) {i : Nat} (few : i < 8) :
    (byte.toUInt64 <<< (8 * i).toUInt64).toNat = byte.toNat * 2 ^ (8 * i) := by
  rw [UInt64.toNat_shiftLeft, UInt8.toNat_toUInt64, toNat_shift few, Nat.shiftLeft_eq]
  apply Nat.mod_eq_of_lt
  calc byte.toNat * 2 ^ (8 * i)
      < 2 ^ 8 * 2 ^ (8 * i) := Nat.mul_lt_mul_of_pos_right byte.toNat_lt (Nat.two_pow_pos _)
    _ = 2 ^ (8 + 8 * i) := (Nat.pow_add ..).symm
    _ ≤ 2 ^ 64 := Nat.pow_le_pow_right (by omega) (by omega)

/-- A byte in one lane is nought in every other. -/
theorem lane_placed (byte : UInt8) {i j : Nat} (few : i < 8) (few' : j < 8) :
    lane ⟨byte.toUInt64 <<< (8 * i).toUInt64⟩ j = if j = i then byte else 0 := by
  have value : (lane ⟨byte.toUInt64 <<< (8 * i).toUInt64⟩ j).toNat =
      byte.toNat * 2 ^ (8 * i) / 2 ^ (8 * j) % 2 ^ 8 := by
    rw [lane, UInt64.toNat_toUInt8, UInt64.toNat_shiftRight, toNat_placed byte few,
      toNat_shift few', Nat.shiftRight_eq_div_pow]
  apply UInt8.toNat_inj.mp
  rw [value]
  rcases Nat.lt_trichotomy j i with below | rfl | above
  · have split : 2 ^ (8 * i) = 2 ^ (8 * (i - j) - 8) * 2 ^ 8 * 2 ^ (8 * j) := by
      rw [← Nat.pow_add, ← Nat.pow_add]
      congr 1
      omega
    rw [if_neg (by omega), split, ← Nat.mul_assoc, Nat.mul_div_cancel _ (Nat.two_pow_pos _),
      ← Nat.mul_assoc, Nat.mul_mod_left]
    rfl
  · rw [if_pos rfl, Nat.mul_div_cancel _ (Nat.two_pow_pos _), Nat.mod_eq_of_lt byte.toNat_lt]
  · have small : byte.toNat * 2 ^ (8 * i) < 2 ^ (8 * j) := by
      calc byte.toNat * 2 ^ (8 * i)
          < 2 ^ 8 * 2 ^ (8 * i) := Nat.mul_lt_mul_of_pos_right byte.toNat_lt (Nat.two_pow_pos _)
        _ = 2 ^ (8 + 8 * i) := (Nat.pow_add ..).symm
        _ ≤ 2 ^ (8 * j) := Nat.pow_le_pow_right (by omega) (by omega)
    rw [if_neg (by omega), Nat.div_eq_of_lt small]
    rfl

variable {r : Random} {position : Nat}

def placed (r : Random) (byte : UInt8) (position : Nat) : Random :=
  ⟨r.state ^^^ (byte.toUInt64 <<< (8 * (position % 8)).toUInt64)⟩

theorem mixByte_eq (byte : UInt8) :
    r.mixByte byte position =
      if position % 8 = 7 then (r.placed byte position).bump else r.placed byte position := rfl

theorem placed_lane (byte : UInt8) {j : Nat} (few : j < 8) :
    (r.placed byte position).lane j = r.lane j ^^^ if j = position % 8 then byte else 0 := by
  rw [placed, lane, UInt64.shiftRight_xor, UInt64.toUInt8_xor]
  exact congrArg (r.lane j ^^^ ·) (lane_placed byte (by omega) few)

def laid : List UInt8 → Nat → Random → Random
  | [], _, r => r
  | byte :: rest, position, r => laid rest (position + 1) (r.placed byte position)

/-- Within one group of lanes all bytes are laid before the state advances, which it does
if the last lane is filled. -/
theorem mixBytes_eq_laid {bytes : List UInt8} (room : position % 8 + bytes.length ≤ 8) :
    mixBytes bytes position r =
      if position % 8 + bytes.length = 8 then (laid bytes position r).bump
      else laid bytes position r := by
  induction bytes generalizing position r with
  | nil =>
    have part : ¬position % 8 + ([] : List UInt8).length = 8 := by
      rw [List.length_nil]
      omega
    rw [if_neg part]
    rfl
  | cons byte rest ih =>
    simp only [List.length_cons] at room ⊢
    rw [mixBytes, laid, mixByte_eq]
    by_cases last : position % 8 = 7
    · obtain rfl : rest = [] := List.eq_nil_of_length_eq_zero (by omega)
      rw [if_pos last, if_pos (by simpa using last)]
      rfl
    · have next : (position + 1) % 8 = position % 8 + 1 := by omega
      rw [if_neg last, ih (by omega), next, Nat.add_assoc, Nat.add_comm 1]

def byteFor (bytes : List UInt8) (position j : Nat) : UInt8 :=
  if position % 8 ≤ j then bytes[j - position % 8]?.getD 0 else 0

theorem byteFor_of_le {rest : List UInt8} (room : position % 8 + rest.length < 8) {j : Nat}
    (up : j ≤ position % 8) : byteFor rest (position + 1) j = 0 := by
  unfold byteFor
  split
  · rw [List.getElem?_eq_none (by omega), Option.getD_none]
  · rfl

theorem byteFor_cons {byte : UInt8} {rest : List UInt8}
    (room : position % 8 + rest.length < 8) {j : Nat} (few : j < 8) :
    byteFor (byte :: rest) position j =
      (if j = position % 8 then byte else 0) ^^^ byteFor rest (position + 1) j := by
  rcases Nat.lt_trichotomy j (position % 8) with before | rfl | after
  · rw [byteFor_of_le room before.le, byteFor, if_neg (by omega), if_neg (by omega), UInt8.xor_zero]
  · rw [byteFor_of_le room le_rfl]
    simp [byteFor]
  · have next : (position + 1) % 8 = position % 8 + 1 := by omega
    have place : j - position % 8 = j - (position % 8 + 1) + 1 := by omega
    rw [byteFor, byteFor, if_pos (by omega), if_neg (by omega), next, if_pos (by omega), place,
      UInt8.zero_xor, List.getElem?_cons_succ]

/-- Lane by lane, what a text adds to the state is its bytes. -/
theorem laid_lane {bytes : List UInt8} (room : position % 8 + bytes.length ≤ 8)
    {j : Nat} (few : j < 8) :
    (laid bytes position r).lane j = r.lane j ^^^ byteFor bytes position j := by
  induction bytes generalizing position r with
  | nil => simp [laid, byteFor]
  | cons byte rest ih =>
    simp only [List.length_cons] at room
    have further : (position + 1) % 8 + rest.length ≤ 8 := by omega
    rw [laid, ih further, placed_lane byte few, byteFor_cons (by omega) few, UInt8.xor_assoc]

theorem getD_of_laid {xs ys : List UInt8} (room : position % 8 + xs.length ≤ 8)
    (room' : position % 8 + ys.length ≤ 8) (same : laid xs position r = laid ys position r)
    {k : Nat} (few : position % 8 + k < 8) : xs[k]?.getD 0 = ys[k]?.getD 0 := by
  have lanes := congrArg (lane · (position % 8 + k)) same
  simp only [laid_lane room few, laid_lane room' few, UInt8.xor_right_inj] at lanes
  simpa [byteFor] using lanes

/-- As many bytes in the same lanes are told apart. -/
theorem laid_inj {xs ys : List UInt8} (length : xs.length = ys.length)
    (room : position % 8 + xs.length ≤ 8) :
    laid xs position r = laid ys position r ↔ xs = ys := by
  constructor
  · intro same
    apply List.ext_getElem length
    intro k inside inside'
    have bytes := getD_of_laid room (length ▸ room) same (k := k) (by omega)
    simpa [List.getElem?_eq_getElem inside, List.getElem?_eq_getElem inside'] using bytes
  · exact fun same => same ▸ rfl

/-- Where no byte is nought, nought says that there is none. -/
theorem getElem?_of_plain {xs : List UInt8} (plain : 0 ∉ xs) (k : Nat) :
    xs[k]? = if xs[k]?.getD 0 = 0 then none else some (xs[k]?.getD 0) := by
  cases found : xs[k]? with
  | none => rfl
  | some byte =>
    have other : byte ≠ 0 := by
      rintro rfl
      exact plain (List.mem_of_getElem? found)
    rw [Option.getD_some, if_neg other]

/-- Texts without a nought that leave the eighth lane empty are told apart, however long
they are. -/
theorem mixBytes_inj {xs ys : List UInt8} (room : position % 8 + xs.length ≤ 7)
    (room' : position % 8 + ys.length ≤ 7) (plain : 0 ∉ xs) (plain' : 0 ∉ ys) :
    mixBytes xs position r = mixBytes ys position r ↔ xs = ys := by
  constructor
  · intro same
    rw [mixBytes_eq_laid (by omega), mixBytes_eq_laid (by omega), if_neg (by omega),
      if_neg (by omega)] at same
    apply List.ext_getElem?
    intro k
    by_cases few : position % 8 + k < 8
    · have bytes := getD_of_laid (by omega) (by omega) same few
      rw [getElem?_of_plain plain, getElem?_of_plain plain', bytes]
    · rw [List.getElem?_eq_none (by omega), List.getElem?_eq_none (by omega)]
  · exact fun same => same ▸ rfl

theorem bytes_append (a b : String) : bytes (a ++ b) = bytes a ++ bytes b := by
  simp [bytes]

theorem bytes_inj {a b : String} : bytes a = bytes b ↔ a = b := by
  constructor
  · intro same
    apply String.toByteArray_inj.mp
    apply ByteArray.ext
    exact Array.toList_inj.mp same
  · exact congrArg bytes

/-- As many bytes within one group of lanes are told apart by the mixed state, but for
those that fill the group and stand at nought and at the seed that replaces it. Texts
may be mixed in one after the other or as one. -/
theorem mixing_told_apart (r : Random) (position : Nat) :
    (∀ xs ys : List UInt8, xs.length = ys.length → position % 8 + xs.length ≤ 8 → xs ≠ ys →
      (mixBytes xs position r = mixBytes ys position r ↔
        position % 8 + xs.length = 8 ∧
          (laid xs position r = ⟨0⟩ ∧ laid ys position r = initial ∨
            laid xs position r = initial ∧ laid ys position r = ⟨0⟩))) ∧
    (∀ xs : List UInt8, position % 8 + xs.length ≤ 8 →
      mixBytes xs position r =
        if position % 8 + xs.length = 8 then (laid xs position r).bump
        else laid xs position r) ∧
    (∀ xs ys : List UInt8, mixBytes (xs ++ ys) position r =
      mixBytes ys (position + xs.length) (mixBytes xs position r)) ∧
    (∀ a b : String, r.mixText (a ++ b) position =
      (r.mixText a position).1.mixText b (r.mixText a position).2) := by
  refine ⟨?_, fun _ room => mixBytes_eq_laid room,
    fun xs ys => mixBytes_append xs ys position r, ?_⟩
  · intro xs ys length room other
    have apart : laid xs position r ≠ laid ys position r := mt (laid_inj length room).mp other
    rw [mixBytes_eq_laid room, mixBytes_eq_laid (length ▸ room), ← length]
    by_cases filled : position % 8 + xs.length = 8
    · rw [if_pos filled, if_pos filled, bump_eq_iff, or_iff_right apart, and_iff_right filled]
    · rw [if_neg filled, if_neg filled]
      exact ⟨fun same => absurd same apart, fun meet => absurd meet.1 filled⟩
  · intro a b
    simp only [mixText, bytes_append, mixBytes_append, List.length_append, Nat.add_assoc]

/-- The bytes of a state of eight letters, which take it to nought. -/
def letters : List UInt8 := [109, 111, 117, 110, 116, 97, 105, 110]

/-- Those that take the same state to the seed. -/
def others : List UInt8 := [99, 92, 184, 197, 64, 115, 157, 83]

theorem mixing_told_apart_letters :
    letters.length = others.length ∧ 0 % 8 + letters.length ≤ 8 ∧ letters ≠ others ∧
    mixBytes letters 0 ⟨0x6E6961746E756F6D⟩ = mixBytes others 0 ⟨0x6E6961746E756F6D⟩ ∧
    mixBytes (letters.take 2) 3 initial ≠ mixBytes (letters.take 2).reverse 3 initial := by
  have length : letters.length = others.length := rfl
  have room : 0 % 8 + letters.length ≤ 8 := by decide
  have other : letters ≠ others := by decide
  refine ⟨length, room, other, ?_, ?_⟩
  · exact ((mixing_told_apart _ 0).1 _ _ length room other).mpr
      ⟨rfl, .inl ⟨by decide, by decide⟩⟩
  · intro same
    have told := (mixing_told_apart initial 3).1 (letters.take 2) (letters.take 2).reverse
    exact absurd ((told rfl (by decide) (by decide)).mp same).1 (by decide)

end Random

namespace Setting

variable {σ σ' α : Type} {t : Setting σ α} {t' : Setting σ' α} {name name' : String}

def startText (t : Setting σ α) (name : String) : String := t.options.variation.getD "" ++ name

/-- A text without a nought among its bytes that leaves the eighth lane empty. -/
def Brief (text : String) : Prop := 0 ∉ Random.bytes text ∧ (Random.bytes text).length ≤ 7

instance (text : String) : Decidable (Brief text) := inferInstanceAs (Decidable (_ ∧ _))

theorem startRandom_eq_mixBytes (t : Setting σ α) (name : String) :
    t.startRandom name = Random.mixBytes (Random.bytes (t.startText name)) 0 ⟨t.options.seed⟩ := by
  unfold startRandom startText
  cases t.options.variation with
  | none => rw [Option.getD_none, String.empty_append]; rfl
  | some variation => rw [Option.getD_some, Random.bytes_append, Random.mixBytes_append]; rfl

/-- From one seed, brief texts lead to one state just when they are the same. So two
start shapes with one variation, and two variations of one start shape, have
different streams. -/
theorem streams_told_by_text (seeds : t.options.seed = t'.options.seed)
    (brief : Brief (t.startText name)) (brief' : Brief (t'.startText name')) :
    (t.startRandom name = t'.startRandom name' ↔ t.startText name = t'.startText name') ∧
    (t.options.variation.getD "" = t'.options.variation.getD "" → name ≠ name' →
      t.startRandom name ≠ t'.startRandom name') ∧
    (t.options.variation.getD "" ≠ t'.options.variation.getD "" → name = name' →
      t.startRandom name ≠ t'.startRandom name') := by
  have told : t.startRandom name = t'.startRandom name' ↔
      t.startText name = t'.startText name' := by
    rw [startRandom_eq_mixBytes, startRandom_eq_mixBytes, seeds,
      Random.mixBytes_inj (by simpa using brief.2) (by simpa using brief'.2) brief.1 brief'.1,
      Random.bytes_inj]
  refine ⟨told, ?_, ?_⟩
  · intro variation names same
    have texts := told.mp same
    rw [startText, startText, variation] at texts
    exact names ((String.append_right_inj _).mp texts)
  · intro variations named same
    have texts := told.mp same
    rw [startText, startText, named] at texts
    exact variations ((String.append_left_inj _).mp texts)

def varied (variation : String) : Setting (Recorder Rat × Array (Call Rat)) Rat :=
  .standard Sample.grammar Sample.renderer ⟨Random.defaultSeed, some variation⟩

theorem streams_told_by_text_sides :
    Brief ((varied "left").startText "dot") ∧ Brief ((varied "west").startText "dot") ∧
    (varied "left").startRandom "dot" ≠ (varied "west").startRandom "dot" := by
  have left : Brief ((varied "left").startText "dot") := by decide +kernel
  have west : Brief ((varied "west").startText "dot") := by decide +kernel
  have seeds : (varied "left").options.seed = (varied "west").options.seed := rfl
  exact ⟨left, west, (streams_told_by_text seeds left west).2.2 (by decide +kernel) rfl⟩

/-- A letter goes over from the name to the variation, and the stream stays the same. -/
theorem streams_meet :
    Brief ((varied "a").startText "bc") ∧ Brief ((varied "ab").startText "c") ∧
    (varied "a").startRandom "bc" = (varied "ab").startRandom "c" := by decide +kernel

end Setting

end ShapeGrammar
