/-!
# Decimal text of binary numbers

A positive number `m · 2^q` is written from exact integer arithmetic: with
the fewest digits that still single it out among its neighbours, or with a
fixed number of places. Nothing is rounded on the way.
-/

set_option autoImplicit false

namespace ShapeGrammar.Decimal

structure Ratio where
  num : Nat
  den : Nat

def Ratio.scaled (m : Nat) (q : Int) : Ratio :=
  if 0 ≤ q then ⟨m <<< q.toNat, 1⟩ else ⟨m, 1 <<< (-q).toNat⟩

def powerOfTen (e : Nat) : Nat := Nat.pow 10 e

def Ratio.shift (r : Ratio) (e : Int) : Ratio :=
  if 0 ≤ e then ⟨r.num * powerOfTen e.toNat, r.den⟩
  else ⟨r.num, r.den * powerOfTen (-e).toNat⟩

/-- The nearest natural, a half going to the even neighbour. -/
def Ratio.round (r : Ratio) : Nat :=
  let whole := r.num / r.den
  let twice := 2 * (r.num % r.den)
  if twice < r.den then whole
  else if r.den < twice then whole + 1
  else whole + whole % 2

def Ratio.roundHalfUp (r : Ratio) : Nat := (2 * r.num + r.den) / (2 * r.den)

/-- How many places after the point come before the first digit that is not
zero, looking at most `fuel` places far. -/
def leadingPlaces (r : Ratio) : Nat → Nat
  | 0 => 0
  | fuel + 1 => if r.den ≤ r.num then 0 else leadingPlaces (r.shift 1) fuel + 1

/-- The `p` with `10^(p-1) ≤ r < 10^p`. -/
def magnitude (r : Ratio) : Int :=
  if r.den ≤ r.num then (toString (r.num / r.den)).length
  else 1 - (leadingPlaces r 400 : Int)

structure Digits where
  digits : Nat
  exponent : Int

/-- The open or closed interval of reals that read as one binary number,
all in quarters of its last place. -/
structure Neighbourhood where
  value : Nat
  low : Nat
  high : Nat
  unit : Int
  closed : Bool

/-- `narrow` says that the next smaller number is only half a place away. -/
def Neighbourhood.of (m : Nat) (q : Int) (narrow : Bool) : Neighbourhood :=
  { value := 4 * m
    low := 4 * m - (if narrow then 1 else 2)
    high := 4 * m + 2
    unit := q - 2
    closed := m % 2 == 0 }

def Neighbourhood.contains (n : Neighbourhood) (d : Digits) : Bool :=
  let point := (Ratio.mk d.digits 1).shift d.exponent
  let low := Ratio.scaled n.low n.unit
  let high := Ratio.scaled n.high n.unit
  let left := compare (low.num * point.den) (point.num * low.den)
  let right := compare (point.num * high.den) (high.num * point.den)
  (left == .lt || (n.closed && left == .eq)) && (right == .lt || (n.closed && right == .eq))

/-- `10^count` takes one digit more than the grid has, and is `1` one grid up. -/
def Digits.carried (count : Nat) (d : Digits) : Digits :=
  if d.digits = powerOfTen count then ⟨1, d.exponent + count⟩ else d

/-- The two neighbours of the value on the grid of `count` digits, the nearer
first, and of two that are equally near the larger. -/
def Neighbourhood.candidates (n : Neighbourhood) (count : Nat) : List Digits :=
  let r := Ratio.scaled n.value n.unit
  let e := magnitude r - count
  let scaled := r.shift (-e)
  let below := scaled.num / scaled.den
  let near := scaled.roundHalfUp
  let far := if near = below then below + 1 else below
  [Digits.carried count ⟨near, e⟩, Digits.carried count ⟨far, e⟩]

def Neighbourhood.shortestFrom (n : Neighbourhood) : Nat → Nat → Digits
  | 0, count => (n.candidates count).headD ⟨0, 0⟩
  | fuel + 1, count =>
    match (n.candidates count).find? n.contains with
    | some d => d
    | none => n.shortestFrom fuel (count + 1)

/-- Seventeen digits always single out a double, so the search ends there. -/
def Neighbourhood.shortest (n : Neighbourhood) : Digits := n.shortestFrom 16 1

def zeros (count : Nat) : String := String.ofList (List.replicate count '0')

/-- Positional text, without an exponent and with a point only when places follow. -/
def Digits.text (d : Digits) : String :=
  if 0 ≤ d.exponent then toString (d.digits * powerOfTen d.exponent.toNat)
  else
    let places := (-d.exponent).toNat
    let shown := toString d.digits
    let padded := zeros (places + 1 - shown.length) ++ shown
    let whole := padded.length - places
    String.ofList (padded.toList.take whole) ++ "." ++ String.ofList (padded.toList.drop whole)

/-- The ratio rounded to `places` places, which must be positive. -/
def Ratio.fixed (r : Ratio) (places : Nat) : String :=
  Digits.text ⟨(r.shift places).round, -(places : Int)⟩

end ShapeGrammar.Decimal
