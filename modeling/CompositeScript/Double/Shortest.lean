import CompositeScript.Double
import CompositeScript.Decimal

/-!
The shortest decimal that reads back as a given double.

The decimals that round to a double fill an interval around it, whose ends belong to it if the
significand is even. For one digit, two digits and so on, the two neighbours of the double among the
decimals of so many digits are tried; the first that lies in the interval is the answer, and if both
do, the nearer one, or the even one of two that are equally near.
-/

namespace CompositeScript.Double

/-- A double with the decimals that round to it, all over one denominator. -/
structure Interval where
  low : Nat
  value : Nat
  high : Nat
  den : Nat
  closed : Bool

/-- The decimals that round to a finite positive double. The gap below a power of two is half the
gap above it. -/
def interval (x : Double) : Interval :=
  let up := Nat.pow 2 (x.scale - 2).toNat
  let m := x.significand
  let below := if x.fraction.val = 0 && 1 < x.exponent.val then 1 else 2
  { low := (4 * m - below) * up
    value := 4 * m * up
    high := (4 * m + 2) * up
    den := Nat.pow 2 (2 - x.scale).toNat
    closed := m % 2 == 0 }

namespace Interval

/-- The interval in units of a power of ten: numerators and denominator are scaled so that the
decimals of that exponent are the whole numbers. -/
def inUnits (i : Interval) (exponent : Int) : Interval :=
  let up := Nat.pow 10 (-exponent).toNat
  { i with
    low := i.low * up
    value := i.value * up
    high := i.high * up
    den := i.den * Nat.pow 10 exponent.toNat }

/-- The whole number lies in the interval. -/
def holds (i : Interval) (n : Nat) : Bool :=
  if i.closed then i.low ≤ n * i.den && n * i.den ≤ i.high
  else i.low < n * i.den && n * i.den < i.high

/-- The whole number in the interval next to its value, if one of the two neighbours is in it. -/
def pick (i : Interval) : Option Nat :=
  let n := i.value / i.den
  let twice := 2 * (i.value % i.den)
  match i.holds n, i.holds (n + 1) with
  | false, false => none
  | true, false => some n
  | false, true => some (n + 1)
  | true, true =>
    some (if twice < i.den then n else if i.den < twice then n + 1 else n + n % 2)

/-- The least exponent `n`, from `start` on, with a value below `10 ^ n`. -/
def pointPlace (i : Interval) : (steps : Nat) → (start : Int) → Int
  | 0, n => n
  | k + 1, n =>
    if i.value * Nat.pow 10 (-n).toNat < i.den * Nat.pow 10 n.toNat then n
    else i.pointPlace k (n + 1)

/-- A power of ten that is at most the value, close to it. -/
def estimate (i : Interval) : Int :=
  ((Nat.log2 i.value : Int) - Nat.log2 i.den - 1) * 30103 / 100000

/-- The first decimal in the interval that has `digits` or more digits, given where the point
stands. -/
def shortest (i : Interval) (place : Int) : (steps digits : Nat) → Decimal
  | 0, _ => ⟨[], 0⟩
  | k + 1, digits =>
    match (i.inUnits (place - digits)).pick with
    | some n => Decimal.ofScaled n (place - digits)
    | none => i.shortest place k (digits + 1)

end Interval

/-- The shortest decimal that reads back as a finite number other than zero, its sign apart. -/
def shortest (x : Double) : Decimal :=
  let i := x.interval
  i.shortest (i.pointPlace 8 (i.estimate - 1)) 18 1

/-- The form of a number shown in messages. -/
def display (x : Double) : Text :=
  let size : Text :=
    if x.isInfinite then "inf" else if x.isZero then "0.0" else x.shortest.display
  if x.isNaN then "nan" else if x.negative then "-" ++ size else size

end CompositeScript.Double
