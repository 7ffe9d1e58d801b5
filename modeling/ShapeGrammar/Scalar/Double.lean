import ShapeGrammar.Scalar
import ShapeGrammar.Decimal

/-!
# Double precision

Doubles as a scalar. The sign, the significand and the exponent are read off
the bit pattern, and what the machine has no instruction for (the remainder,
the decimal text, the reading of a decimal) is computed from them exactly.
-/

set_option autoImplicit false

namespace ShapeGrammar.Double

open Decimal

/-- A double taken apart; a finite one is `m · 2^q` with its sign. -/
inductive Parts where
  | undefined
  | infinite (negative : Bool)
  | finite (negative : Bool) (m : Nat) (q : Int)

def leadingBit : Nat := 4503599627370496

def parts (x : Float) : Parts :=
  let bits := x.toBits.toNat
  let negative := bits >>> 63 == 1
  let exponent : Nat := (bits >>> 52) % 2048
  let fraction : Nat := bits % leadingBit
  if exponent = 2047 then (if fraction = 0 then .infinite negative else .undefined)
  else if exponent = 0 then .finite negative fraction (-1074)
  else .finite negative (fraction + leadingBit) ((exponent : Int) - 1075)

def signed (negative : Bool) (x : Float) : Float := if negative then -x else x

def inUnits (r : Ratio) (q : Int) : Ratio :=
  if 0 ≤ q then ⟨r.num, r.den <<< q.toNat⟩ else ⟨r.num <<< (-q).toNat, r.den⟩

/-- The double nearest to a ratio, a half going to the even significand. The
last place is chosen so that 53 bits are kept, and never below `2^-1074`. -/
def ofRatio (r : Ratio) : Float :=
  if r.num = 0 then 0
  else
    let guess := (r.num.log2 : Int) - r.den.log2 - 52
    let scaled := inUnits r guess
    let wanted := if scaled.num < scaled.den * leadingBit then guess - 1 else guess
    let q := if wanted < -1074 then -1074 else wanted
    let m := (inUnits r q).round
    let bits := if m < leadingBit then m else (q + 1074).toNat * leadingBit + m
    if 2047 * leadingBit ≤ bits then 1 / 0 else Float.ofBits bits.toUInt64

def ofDecimal (mantissa : Int) (places : Nat) : Float :=
  signed (mantissa < 0) (ofRatio ⟨mantissa.natAbs, powerOfTen places⟩)

def sign (negative : Bool) : String := if negative then "-" else ""

/-- A power of two whose lower neighbour is half a place away has the
significand `2^52`, unless it is the smallest normal number. -/
def neighbourhood (m : Nat) (q : Int) : Neighbourhood :=
  .of m q (m == leadingBit && decide (-1074 < q))

def text (x : Float) : String :=
  match parts x with
  | .undefined => "NaN"
  | .infinite negative => sign negative ++ "inf"
  | .finite negative 0 _ => sign negative ++ "0"
  | .finite negative m q => sign negative ++ (neighbourhood m q).shortest.text

def textOnePlace (x : Float) : String :=
  match parts x with
  | .undefined => "NaN"
  | .infinite negative => sign negative ++ "inf"
  | .finite negative m q => sign negative ++ (Ratio.scaled m q).fixed 1

/-- Both operands are brought to the smaller exponent, where the remainder is
that of integers; it is again a double. -/
def truncMod (x y : Float) : Float :=
  match parts x, parts y with
  | .finite _ _ _, .infinite _ => x
  | .finite negative m q, .finite _ n p =>
    if n = 0 then 0 / 0
    else
      let e := if q < p then q else p
      let r := (m <<< (q - e).toNat) % (n <<< (p - e).toNat)
      signed negative (ofRatio (.scaled r e))
  | _, _ => 0 / 0

/-- A count below `2^64` is converted by the machine, a larger one exactly. -/
def ofNat (n : Nat) : Float :=
  if n < 18446744073709551616 then n.toUInt64.toFloat else ofRatio ⟨n, 1⟩

instance : Scalar Float where
  zero := 0
  one := 1
  natCast := ofNat
  decLt := inferInstance
  decLe := inferInstance
  isFinite := Float.isFinite
  abs := Float.abs
  sqrt := Float.sqrt
  floor := Float.floor
  ceil := Float.ceil
  exp := Float.exp
  log := Float.log
  pow := Float.pow
  pi := 3.141592653589793
  sin := Float.sin
  cos := Float.cos
  tan := Float.tan
  atan := Float.atan
  atan2 := Float.atan2
  truncMod := truncMod
  floorNat x := x.floor.toUInt64.toNat
  floorInt x := x.floor.toInt64.toInt
  text := text
  textOnePlace := textOnePlace

end ShapeGrammar.Double
