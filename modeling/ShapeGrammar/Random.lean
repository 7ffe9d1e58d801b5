import ShapeGrammar.Scalar

/-!
# The random source

A 64-bit xorshift generator whose output is scrambled by a multiplier. Every
draw first advances the state, or peeks at what the present state yields.
Text is mixed into the state byte by byte, each byte going to the lane of its
running position, so that several texts can be chained into one seed.
-/

set_option autoImplicit false

namespace ShapeGrammar

structure Random where
  state : UInt64
  deriving DecidableEq, Repr

namespace Random

def multiplier : UInt64 := 2685821657736338717

def defaultSeed : UInt64 := 0x3DF41234ABCD330E

def initial : Random := ⟨defaultSeed⟩

/-- Zero is a fixed point of the shifts, so it is replaced first. -/
def bump (r : Random) : Random :=
  let a := if r.state = 0 then defaultSeed else r.state
  let b := a ^^^ (a >>> 12)
  let c := b ^^^ (b <<< 25)
  ⟨c ^^^ (c >>> 27)⟩

def word (r : Random) : UInt64 := r.state * multiplier

def step (r : Random) (advance : Bool) : Random := if advance then r.bump else r

def merge (r other : Random) : Random := ⟨r.state ^^^ other.state⟩

section Draws

variable (α : Type) [Scalar α]

def unit : α := 1 / ((9007199254740992 : Nat) : α)

/-- The top 53 bits as a number in `[0, 1)`. -/
def lower (r : Random) : α := (((r.word >>> 11).toNat : Nat) : α) * unit α

/-- The same bits as a number in `(0, 1]`. -/
def upper (r : Random) : α := (((r.word >>> 11) + 1).toNat : α) * unit α

end Draws

def signed (r : Random) : Int := r.word.toInt64.toInt

def positive (r : Random) : Int := (r.word >>> 1).toInt64.toInt

/-- The state advances each time the eighth lane is filled, so that bytes
eight positions apart do not cancel. -/
def mixByte (r : Random) (byte : UInt8) (position : Nat) : Random :=
  let lane := position % 8
  let mixed : Random := ⟨r.state ^^^ (byte.toUInt64 <<< (8 * lane).toUInt64)⟩
  if lane = 7 then mixed.bump else mixed

def mixBytes : List UInt8 → Nat → Random → Random
  | [], _, r => r
  | byte :: rest, position, r => mixBytes rest (position + 1) (r.mixByte byte position)

theorem mixBytes_append (xs ys : List UInt8) (position : Nat) (r : Random) :
    mixBytes (xs ++ ys) position r =
      mixBytes ys (position + xs.length) (mixBytes xs position r) := by
  induction xs generalizing position r with
  | nil => rfl
  | cons x xs ih =>
    simp only [List.cons_append, mixBytes, ih, List.length_cons]
    congr 1
    omega

def bytes (text : String) : List UInt8 := text.toUTF8.data.toList

def mixText (r : Random) (text : String) (position : Nat) : Random × Nat :=
  (mixBytes (bytes text) position r, position + (bytes text).length)

end Random

end ShapeGrammar
