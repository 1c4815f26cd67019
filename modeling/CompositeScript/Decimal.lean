import CompositeScript.Text

/-!
Decimal numbers and the two ways they are written.

A decimal is a sequence of digits with a power of ten. `literal` writes it the way JavaScript writes
its numbers, `display` the way values are shown in messages. The two share the digits and differ in
where positional notation ends, in the fraction of a whole number and in the exponent.
-/

namespace CompositeScript

/-- A decimal digit. -/
abbrev Digit := Fin 10

/-- The character of a digit. -/
def Digit.point (d : Digit) : CodePoint := ⟨0x30 + d.val, by omega⟩

/-- A positive decimal number: the digits, read as a whole number, times a power of ten. -/
structure Decimal where
  digits : List Digit
  exponent : Int
  deriving DecidableEq, Repr

namespace Decimal

/-- A whole number times a power of ten. -/
def ofScaled (n : Nat) (exponent : Int) : Decimal :=
  ⟨(Nat.toDigits 10 n).map fun c => Fin.ofNat 10 (c.toNat - 0x30), exponent⟩

/-- The digits without the zeros at the end. -/
def significant (d : Decimal) : List Digit := (d.digits.reverse.dropWhile (· = 0)).reverse

/-- Where the decimal point stands, counted from the first digit. -/
def pointPlace (d : Decimal) : Int := d.exponent + d.digits.length

/-- The text of digits. -/
def text (ds : List Digit) : Text := ds.map Digit.point

/-- So many zeros, none for a negative count. -/
def zeros (n : Int) : Text := List.replicate n.toNat ('0' : CodePoint)

/-- Digits before and behind a decimal point, with no point if none are behind. -/
def pointed (whole fraction : List Digit) : Text :=
  if fraction.isEmpty then text whole else text whole ++ "." ++ text fraction

/-- The sign and digits of an exponent, at least `width` digits wide. -/
def exponentText (width : Nat) (e : Int) : Text :=
  (if e < 0 then "e-" else "e+") ++ Text.padZeros width (Text.ofNat e.natAbs)

/-- A number literal: positional from a millionth up to 21 places before the point, else with an
exponent. Whole numbers have no point. -/
def literal (d : Decimal) : Text :=
  let ds := d.significant
  let k := ds.length
  let n := d.pointPlace
  if k ≤ n ∧ n ≤ 21 then text ds ++ zeros (n - k)
  else if 0 < n ∧ n ≤ 21 then pointed (ds.take n.toNat) (ds.drop n.toNat)
  else if -6 < n ∧ n ≤ 0 then "0." ++ zeros (-n) ++ text ds
  else pointed (ds.take 1) (ds.drop 1) ++ exponentText 1 (n - 1)

/-- The literal of a number of either sign. -/
def signedLiteral (negative : Bool) (d : Decimal) : Text :=
  if negative then "-" ++ d.literal else d.literal

/-- The form shown in messages: positional from a ten-thousandth up to 16 places before the point,
else with an exponent of at least two digits. Whole numbers in positional notation end in `.0`. -/
def display (d : Decimal) : Text :=
  let ds := d.significant
  let k := ds.length
  let n := d.pointPlace
  if k ≤ n ∧ n ≤ 16 then text ds ++ zeros (n - k) ++ ".0"
  else if 0 < n ∧ n ≤ 16 then pointed (ds.take n.toNat) (ds.drop n.toNat)
  else if -4 < n ∧ n ≤ 0 then "0." ++ zeros (-n) ++ text ds
  else pointed (ds.take 1) (ds.drop 1) ++ exponentText 2 (n - 1)

end Decimal

end CompositeScript
