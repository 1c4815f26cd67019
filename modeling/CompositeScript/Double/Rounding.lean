import CompositeScript.Double

/-!
The double nearest to a decimal number.

A quotient of whole numbers is rounded to the nearest double, and a tie goes to the even
significand. Beyond the largest double lies infinity.
-/

namespace CompositeScript.Double

/-- The whole number nearest to a quotient; a tie goes to the even one. -/
def nearest (n d : Nat) : Nat :=
  let q := n / d
  let r := n % d
  if 2 * r < d then q else if d < 2 * r then q + 1 else q + q % 2

/-- The quotient `n / (d * 2 ^ e)`, as numerator and denominator. -/
def scaledBy (n d : Nat) (e : Int) : Nat × Nat :=
  (n * Nat.pow 2 (-e).toNat, d * Nat.pow 2 e.toNat)

/-- The power of two that leaves 53 bits before the point of `n / d`, or as many as the smallest
doubles have. -/
def roundingScale (n d : Nat) : Int :=
  let e := (Nat.log2 n : Int) - Nat.log2 d - 52
  let (n, d) := scaledBy n d e
  max (-1074) (if n < 0x10000000000000 * d then e - 1 else e)

/-- The double nearest to the quotient `n / d`. -/
def ofRatio (negative : Bool) (n d : Nat) : Double :=
  if n = 0 then zero negative
  else
    let e := roundingScale n d
    let (n, d) := scaledBy n d e
    ofWord negative ((e + 1074).toNat * 0x10000000000000 + nearest n d)

/-- The double nearest to `n` times a power of ten. A power beyond the range of doubles is not
worked out. -/
def ofDecimal (negative : Bool) (n : Nat) (exponent : Int) : Double :=
  if n = 0 then zero negative
  else if 400 < exponent then infinity negative
  else if exponent + Nat.log2 n < -400 then zero negative
  else if 0 ≤ exponent then ofRatio negative (n * Nat.pow 10 exponent.toNat) 1
  else ofRatio negative n (Nat.pow 10 (-exponent).toNat)

end CompositeScript.Double
