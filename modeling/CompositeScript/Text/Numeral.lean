import CompositeScript.Text

/-!
Integers written by hand.

The digits of any script count, white space may stand at the ends, and a single underscore may stand
between two digits. The zeros of the scripts are those of version 14 of the Unicode character
database; the other nine digits of a script follow its zero.
-/

namespace CompositeScript

/-- The zeros of all scripts, in increasing order. -/
def scriptZeros : List Nat :=
  [0x30, 0x660, 0x6F0, 0x7C0, 0x966, 0x9E6, 0xA66, 0xAE6, 0xB66, 0xBE6, 0xC66, 0xCE6, 0xD66, 0xDE6,
    0xE50, 0xED0, 0xF20, 0x1040, 0x1090, 0x17E0, 0x1810, 0x1946, 0x19D0, 0x1A80, 0x1A90, 0x1B50,
    0x1BB0, 0x1C40, 0x1C50, 0xA620, 0xA8D0, 0xA900, 0xA9D0, 0xA9F0, 0xAA50, 0xABF0, 0xFF10,
    0x104A0, 0x10D30, 0x11066, 0x110F0, 0x11136, 0x111D0, 0x112F0, 0x11450, 0x114D0, 0x11650,
    0x116C0, 0x11730, 0x118E0, 0x11950, 0x11C50, 0x11D50, 0x11DA0, 0x16A60, 0x16AC0, 0x16B50,
    0x1D7CE, 0x1D7D8, 0x1D7E2, 0x1D7EC, 0x1D7F6, 0x1E140, 0x1E2F0, 0x1E950, 0x1FBF0]

/-- The value of a decimal digit of any script. -/
def CodePoint.digitValue? (c : CodePoint) : Option Nat :=
  (scriptZeros.find? fun z => z ≤ c.val && c.val < z + 10).map (c.val - ·)

namespace Numeral

/-- White space that may stand before and behind a numeral. -/
def spaceRanges : List (Nat × Nat) :=
  [(0x09, 0x0D), (0x20, 0x20), (0x85, 0x85), (0xA0, 0xA0), (0x1680, 0x1680), (0x2000, 0x200A),
    (0x2028, 0x2029), (0x202F, 0x202F), (0x205F, 0x205F), (0x3000, 0x3000)]

/-- The numeral without the white space around it. -/
def trim (t : Text) : Text :=
  let front := t.dropWhile (CodePoint.within spaceRanges)
  (front.reverse.dropWhile (CodePoint.within spaceRanges)).reverse

/-- The values of the digits of a text; `afterDigit` if an underscore may come next. -/
def digitValues? : (afterDigit : Bool) → Text → Option (List Nat)
  | afterDigit, [] => if afterDigit then some [] else none
  | afterDigit, c :: t =>
    match c.digitValue? with
    | some d => (digitValues? true t).map (d :: ·)
    | none => if c = '_' && afterDigit then digitValues? false t else none

/-- The number that digits write. -/
def natural? (t : Text) : Option Nat :=
  match digitValues? false t with
  | none => none
  | some ds =>
    if ds.length ≤ Text.maxDigits then some (ds.foldl (fun n d => 10 * n + d) 0) else none

/-- The integer that a numeral writes. -/
def integer? (t : Text) : Option Int :=
  match trim t with
  | [] => none
  | c :: rest =>
    if c = '-' then (natural? rest).map fun n => -(n : Int)
    else if c = '+' then (natural? rest).map fun n => (n : Int)
    else (natural? (c :: rest)).map fun n => (n : Int)

end Numeral

end CompositeScript
