import Archetype.Number.Double

/-!
# The shortest text of a double

A double is written with the fewest digits that read back to it, of those the nearest. The digits
are found in exact arithmetic: a finite double is the middle of an interval of numbers that read
back to it (its ends belong to it when the significand is even), and the decimal grids of 1, 2, …,
17 digits are tried in turn for a point next to the double that lies in the interval.

* `Double.layout` holds the decisions of the written form: positional from `1e-4` up to `1e16`, at
  least one digit after the point, exponents of at least two digits.
-/

namespace Archetype.Double

/-- The interval of numbers that read back to a double, in units of `2 ^ (exponent - 2)`, and
whether its ends belong to it. -/
structure Interval where
  low : Nat
  middle : Nat
  high : Nat
  closed : Bool

/-- The distance to the lower end of the interval: half as long where the next smaller double has
a smaller exponent. -/
def lowerGap (number : Double) : Nat :=
  if number.fractionField = 0 ∧ 1 < number.exponentField then 1 else 2

def interval (number : Double) : Interval where
  low := 4 * number.significand - number.lowerGap
  middle := 4 * number.significand
  high := 4 * number.significand + 2
  closed := number.significand % 2 == 0

/-- The position of the leading digit of a quotient of two positive numbers: the power of ten that
is at most the quotient, by less than a factor of ten. -/
def leadingPower (numerator denominator : Nat) : Int :=
  if denominator ≤ numerator then ((Nat.toDigits 10 (numerator / denominator)).length : Int) - 1
  else
    let ceiling := (denominator + numerator - 1) / numerator
    Int.negOfNat (Nat.toDigits 10 (ceiling - 1)).length

/-- Powers of two and ten brought to numerators: the two factors by which a number in units of
`2 ^ power` and a number in units of `10 ^ place` are compared. -/
def scales (power place : Int) : Nat × Nat :=
  (Nat.pow 2 power.toNat * Nat.pow 10 (-place).toNat,
    Nat.pow 2 (-power).toNat * Nat.pow 10 place.toNat)

/-- The digits of the point next to the double on the grid of `10 ^ place`, if one lies in the
interval: of two the nearer, of two equally near ones the even one. -/
def onGrid? (bounds : Interval) (power place : Int) : Option Nat :=
  let (binary, decimal) := scales power place
  let below := bounds.middle * binary / decimal
  let inside (candidate : Nat) : Bool :=
    let point := candidate * decimal
    if bounds.closed then bounds.low * binary ≤ point && point ≤ bounds.high * binary
    else bounds.low * binary < point && point < bounds.high * binary
  let toBelow := bounds.middle * binary - below * decimal
  let toAbove := (below + 1) * decimal - bounds.middle * binary
  if inside below && inside (below + 1) then
    if toBelow < toAbove then some below
    else if toAbove < toBelow then some (below + 1)
    else some (if below % 2 = 0 then below else below + 1)
  else if inside below then some below
  else if inside (below + 1) then some (below + 1)
  else none

def search (bounds : Interval) (power leading : Int) : Nat → Nat → Nat × Int
  | 0, count => (bounds.middle, leading + 1 - count)
  | fuel + 1, count =>
    match onGrid? bounds power (leading + 1 - count) with
    | some digits => (digits, leading + 1 - count)
    | none => search bounds power leading fuel (count + 1)

def shortest (number : Double) : Nat × Int :=
  let bounds := number.interval
  let power := number.exponent - 2
  let (binary, decimal) := scales power 0
  search bounds power (leadingPower (bounds.middle * binary) decimal) 17 1

structure Layout where
  /-- The first position of the point, counted from the first digit, that is written out. -/
  lowest : Int
  highest : Int
  exponentDigits : Nat

/-- Positional from `0.0001` up to sixteen digits before the point, two digits for an exponent. -/
def layout : Layout := ⟨-3, 16, 2⟩

def positional (digits : List Char) (position : Int) : List Char :=
  if position ≤ 0 then '0' :: '.' :: List.replicate (-position).toNat '0' ++ digits
  else
    let whole := position.toNat
    if digits.length ≤ whole then
      digits ++ List.replicate (whole - digits.length) '0' ++ ['.', '0']
    else digits.take whole ++ '.' :: digits.drop whole

def scientific (form : Layout) (digits : List Char) (power : Int) : List Char :=
  let mantissa := match digits with
    | first :: second :: rest => first :: '.' :: second :: rest
    | _ => digits
  let exponent := Nat.toDigits 10 power.natAbs
  mantissa ++ 'e' :: (if power < 0 then '-' else '+') ::
    List.replicate (form.exponentDigits - exponent.length) '0' ++ exponent

def significantDigits (digits : Nat) : List Char :=
  (Text.trimEnd (· = '0') (Nat.toDigits 10 digits))

def toText (number : Double) : String :=
  if number.isNaN then "nan"
  else
    let magnitude :=
      if !number.isFinite then ['i', 'n', 'f']
      else if number.isZero then ['0', '.', '0']
      else
        let (digits, place) := number.shortest
        let written := Nat.toDigits 10 digits
        let position := place + written.length
        let kept := significantDigits digits
        if layout.lowest ≤ position ∧ position ≤ layout.highest then positional kept position
        else scientific layout kept (position - 1)
    String.ofList (if number.isNegative then '-' :: magnitude else magnitude)

end Archetype.Double
