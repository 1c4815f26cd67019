/-!
Texts as sequences of code points.

A text may hold any code point, a lone surrogate included, so it is not a `String`: a surrogate half
arrives from an escape such as `\ud800` and has to be kept, compared, escaped again or refused by
whoever reads the text. `Text.ofString` and `Text.toString?` go between the two, and the second
fails exactly on a text that holds a surrogate.
-/

namespace CompositeScript

/-- A Unicode code point, the surrogates included. -/
abbrev CodePoint := Fin 0x110000

namespace CodePoint

/-- The code point of a character. -/
def ofChar (c : Char) : CodePoint :=
  ⟨c.toNat, by have := c.valid; simp only [Char.toNat]; rcases this with h | h <;> grind⟩

instance : Coe Char CodePoint := ⟨ofChar⟩

/-- The code point with a number, which is counted modulo the number of code points. -/
def ofNat (n : Nat) : CodePoint := ⟨n % 0x110000, Nat.mod_lt n (by decide)⟩

/-- The first half of a surrogate pair. -/
def isHighSurrogate (c : CodePoint) : Bool := 0xD800 ≤ c.val && c.val ≤ 0xDBFF

/-- The second half of a surrogate pair. -/
def isLowSurrogate (c : CodePoint) : Bool := 0xDC00 ≤ c.val && c.val ≤ 0xDFFF

/-- A code point that is no character of its own. -/
def isSurrogate (c : CodePoint) : Bool := 0xD800 ≤ c.val && c.val ≤ 0xDFFF

/-- The character of a code point, unless it is a surrogate. -/
def toChar? (c : CodePoint) : Option Char :=
  if c.isSurrogate then none else some (Char.ofNat c.val)

/-- Some range of `ranges` holds the code point. -/
def within (ranges : List (Nat × Nat)) (c : CodePoint) : Bool :=
  ranges.any fun r => r.1 ≤ c.val && c.val ≤ r.2

/-- An ASCII digit. -/
def isDigit (c : CodePoint) : Bool := 0x30 ≤ c.val && c.val ≤ 0x39

/-- The number an ASCII hexadecimal digit of either case stands for. -/
def hexDigit? (c : CodePoint) : Option Nat :=
  if c.isDigit then some (c.val - 0x30)
  else if 0x61 ≤ c.val && c.val ≤ 0x66 then some (c.val - 0x61 + 10)
  else if 0x41 ≤ c.val && c.val ≤ 0x46 then some (c.val - 0x41 + 10)
  else none

/-- An ASCII hexadecimal digit of either case. -/
def isHexDigit (c : CodePoint) : Bool := c.hexDigit?.isSome

end CodePoint

/-- A sequence of code points. -/
abbrev Text := List CodePoint

namespace Text

/-- The code points of a string. -/
def ofString (s : String) : Text := s.toList.map CodePoint.ofChar

instance : Coe String Text := ⟨ofString⟩

/-- A surrogate stands somewhere in the text, so it has no UTF-8 form. -/
def hasSurrogate (t : Text) : Bool := t.any CodePoint.isSurrogate

/-- The string of a text without surrogates. -/
def toString? (t : Text) : Option String := (t.mapM CodePoint.toChar?).map String.ofList

/-- The texts in order, with `sep` between neighbours. -/
def join (sep : Text) (texts : List Text) : Text := sep.intercalate texts

/-- The text starts with `start`. -/
def startsWith (t start : Text) : Bool := start.isPrefixOf t

/-- `part` occurs in the text. -/
def includes : Text → Text → Bool
  | [], part => part.isEmpty
  | c :: t, part => startsWith (c :: t) part || includes t part

/-- The text before the first `c`, or all of it. -/
def before (c : CodePoint) (t : Text) : Text := t.takeWhile (· ≠ c)

/-- The text behind the first `c`, or nothing. -/
def after (c : CodePoint) (t : Text) : Text := (t.dropWhile (· ≠ c)).drop 1

/-- Lexicographic order by code point. -/
def le : Text → Text → Bool
  | [], _ => true
  | _ :: _, [] => false
  | a :: s, b :: t => if a = b then le s t else a < b

/-- The texts in increasing order by code point. -/
def sort (texts : List Text) : List Text := texts.mergeSort le

/-- The numeral of a number in a base of at most sixteen, in lower case. -/
def ofDigits (base n : Nat) : Text := (Nat.toDigits base n).map CodePoint.ofChar

/-- The decimal numeral of a number. -/
def ofNat (n : Nat) : Text := ofDigits 10 n

/-- The decimal numeral of an integer. -/
def ofInt : Int → Text
  | .ofNat n => ofNat n
  | .negSucc n => '-' :: ofNat (n + 1)

/-- The most digits of an integer that is read from a text. -/
def maxDigits : Nat := 4300

/-- At least `width` characters wide, filled with zeros on the left. -/
def padZeros (width : Nat) (t : Text) : Text :=
  List.replicate (width - t.length) ('0' : CodePoint) ++ t

/-- A number in lower-case hexadecimal, at least `width` digits wide. -/
def hex (width n : Nat) : Text := padZeros width (ofDigits 16 n)

/-- The number that a run of decimal digits writes. -/
def toNat (digits : Text) : Nat := digits.foldl (fun n c => 10 * n + (c.val - 0x30)) 0

end Text

end CompositeScript
