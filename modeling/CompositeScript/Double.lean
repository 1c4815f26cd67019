import CompositeScript.Text

/-!
Double-precision binary numbers, by their fields.

A double is a sign, an exponent field of eleven bits and a fraction field of 52 bits. The finite
ones are whole numbers times a power of two (`significand`, `scale`); everything here is exact
arithmetic on those.
-/

namespace CompositeScript

/-- A double-precision binary number. -/
structure Double where
  negative : Bool
  exponent : Fin 2048
  fraction : Fin 0x10000000000000
  deriving DecidableEq, Repr

namespace Double

/-- The number whose exponent and fraction fields together make up `word`. Words from the exponent
field of infinity on stand for infinity. -/
def ofWord (negative : Bool) (word : Nat) : Double :=
  if h : word < 2047 * 0x10000000000000 then
    ⟨negative, ⟨word / 0x10000000000000, by omega⟩, ⟨word % 0x10000000000000, by omega⟩⟩
  else ⟨negative, ⟨2047, by decide⟩, ⟨0, by decide⟩⟩

/-- Zero of either sign. -/
def zero (negative : Bool) : Double := ⟨negative, ⟨0, by decide⟩, ⟨0, by decide⟩⟩

/-- Infinity of either sign. -/
def infinity (negative : Bool) : Double := ⟨negative, ⟨2047, by decide⟩, ⟨0, by decide⟩⟩

/-- The value that is no number. -/
def nan : Double := ⟨false, ⟨2047, by decide⟩, ⟨0x8000000000000, by decide⟩⟩

/-- No number at all. -/
def isNaN (x : Double) : Bool := x.exponent.val == 2047 && x.fraction.val != 0

/-- Infinity of either sign. -/
def isInfinite (x : Double) : Bool := x.exponent.val == 2047 && x.fraction.val == 0

/-- Zero of either sign. -/
def isZero (x : Double) : Bool := x.exponent.val == 0 && x.fraction.val == 0

/-- The whole number that, times a power of two, is the size of a finite number. -/
def significand (x : Double) : Nat :=
  if x.exponent.val = 0 then x.fraction.val else 0x10000000000000 + x.fraction.val

/-- The power of two that goes with the significand. -/
def scale (x : Double) : Int := (max x.exponent.val 1 : Nat) - 1075

/-- The size of a finite number as a quotient of whole numbers. -/
def ratio (x : Double) : Nat × Nat :=
  (x.significand * Nat.pow 2 x.scale.toNat, Nat.pow 2 (-x.scale).toNat)

/-- The value of a finite whole number. Zero of either sign is zero. -/
def toInt? (x : Double) : Option Int :=
  if x.exponent.val = 2047 then none
  else
    let (n, d) := x.ratio
    if n % d = 0 then some (if x.negative then -(n / d : Nat) else (n / d : Nat)) else none

/-- Equality of numbers: the two zeros are equal, and what is no number equals nothing. -/
def sameNumber (x y : Double) : Bool := !x.isNaN && (x == y || (x.isZero && y.isZero))

end Double

end CompositeScript
