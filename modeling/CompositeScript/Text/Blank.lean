import CompositeScript.Text

/-!
White space at the ends of a text.

A code point is blank if it is Unicode white space or one of the four separators U+001C to U+001F.
`Text.strip` drops the blank code points of both ends and keeps those in between.
-/

namespace CompositeScript

/-- The blank code points, as ranges in increasing order. -/
def blankRanges : List (Nat × Nat) :=
  [(0x09, 0x0D), (0x1C, 0x20), (0x85, 0x85), (0xA0, 0xA0), (0x1680, 0x1680), (0x2000, 0x200A),
    (0x2028, 0x2029), (0x202F, 0x202F), (0x205F, 0x205F), (0x3000, 0x3000)]

/-- White space, or one of the four separators. -/
def CodePoint.isBlank (c : CodePoint) : Bool := c.within blankRanges

/-- The text without the blank code points at its end. -/
def Text.stripEnd (t : Text) : Text := (t.reverse.dropWhile CodePoint.isBlank).reverse

/-- The text without the blank code points at its two ends. -/
def Text.strip (t : Text) : Text := Text.stripEnd (t.dropWhile CodePoint.isBlank)

/-- Nothing but blank code points. -/
def Text.isBlank (t : Text) : Bool := t.all CodePoint.isBlank

end CompositeScript
