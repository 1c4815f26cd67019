import CompositeScript.Double.Rounding
import CompositeScript.Text.Numeral

/-!
Doubles written by hand: a decimal with or without point and exponent, or a name of infinity or of
what is no number, in either case of letters.
-/

namespace CompositeScript.Double

/-- A sign at the front, and the text behind it. -/
def splitSign (t : Text) : Bool × Text :=
  if t.startsWith "-" then (true, t.drop 1)
  else if t.startsWith "+" then (false, t.drop 1)
  else (false, t)

/-- The digits at the front, and the text behind them. -/
def splitDigits (t : Text) : Text × Text :=
  (t.takeWhile CodePoint.isDigit, t.dropWhile CodePoint.isDigit)

/-- A capital letter of ASCII as a small one. -/
def lowerCase (c : CodePoint) : CodePoint :=
  if 0x41 ≤ c.val && c.val ≤ 0x5A then c + 0x20 else c

/-- The power of ten that an exponent names, if the text is one or is empty. -/
def exponent? (t : Text) : Option Int :=
  match t with
  | [] => some 0
  | c :: t =>
    let (negative, t) := splitSign t
    let (ds, rest) := splitDigits t
    if c = 'e' && !ds.isEmpty && rest.isEmpty then
      some (if negative then -(Text.toNat ds : Int) else Text.toNat ds)
    else none

/-- The size of a decimal in lower case, with a sign of its own. -/
def decimal? (negative : Bool) (t : Text) : Option Double :=
  let (whole, rest) := splitDigits t
  let (places, rest) := if rest.startsWith "." then splitDigits (rest.drop 1) else ([], rest)
  if (whole ++ places).isEmpty then none
  else
    (exponent? rest).map fun e =>
      ofDecimal negative (Text.toNat (whole ++ places)) (e - places.length)

/-- The double that a text writes. -/
def ofText? (t : Text) : Option Double :=
  let (negative, t) := splitSign ((Numeral.trim t).map lowerCase)
  if t = "inf" || t = "infinity" then some (infinity negative)
  else if t = "nan" then some nan
  else decimal? negative t

end CompositeScript.Double
