import CompositeScript.Text.Printable

/-!
Texts and octets shown in quotes.

Single quotes are used, unless the text holds a single quote and no double one. The quote and the
backslash are escaped, and what cannot be shown as it is is written by its number.
-/

namespace CompositeScript.Text

/-- The quote to show a text in. -/
def quoteMark (t : Text) : CodePoint :=
  if t.contains ('\x27' : CodePoint) && !t.contains ('"' : CodePoint) then '"' else '\x27'

/-- A code point by its number, in the shortest of the three escapes that hold it. -/
def numberEscape (c : CodePoint) : Text :=
  if c.val < 0x100 then "\\x" ++ hex 2 c.val
  else if c.val < 0x10000 then "\\u" ++ hex 4 c.val
  else "\\U" ++ hex 8 c.val

/-- A code point between quotes; `asIs` tells which ones need no escape. -/
def quotedPoint (quote : CodePoint) (asIs : CodePoint → Bool) (c : CodePoint) : Text :=
  if c = quote || c = '\\' then ['\\', c]
  else if c = '\n' then "\\n"
  else if c = '\r' then "\\r"
  else if c = '\t' then "\\t"
  else if asIs c then [c]
  else numberEscape c

/-- The text between quotes. -/
def quotedBy (asIs : CodePoint → Bool) (t : Text) : Text :=
  let quote := t.quoteMark
  [quote] ++ t.flatMap (quotedPoint quote asIs) ++ [quote]

/-- A text shown in quotes. -/
def quoted (t : Text) : Text := quotedBy CodePoint.isPrintable t

/-- Octets shown in quotes, the ASCII ones as characters. -/
def quotedOctets (octets : List UInt8) : Text :=
  "b" ++ quotedBy (fun c => 0x20 ≤ c.val && c.val < 0x7F)
    (octets.map fun o => ⟨o.toNat, by have := o.toNat_lt; omega⟩)

end CompositeScript.Text
