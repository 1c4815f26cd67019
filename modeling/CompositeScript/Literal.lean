import CompositeScript.Fault

/-!
JavaScript literals of plain values.

Strings are written in double quotes. Besides the quote and the backslash, the controls, the two
line separators U+2028 and U+2029 and the surrogates are escaped, so a literal can stand in any
script and has a UTF-8 form. The escapes are those of JSON.
-/

namespace CompositeScript.Literal

/-- The short escape of a code point, if it has one. -/
def shortEscape? (c : CodePoint) : Option Text :=
  if c = '\\' then some "\\\\"
  else if c = '"' then some "\\\""
  else if c = '\x08' then some "\\b"
  else if c = '\x0c' then some "\\f"
  else if c = '\n' then some "\\n"
  else if c = '\r' then some "\\r"
  else if c = '\t' then some "\\t"
  else none

/-- The escape of a code point by its number. -/
def unitEscape (c : CodePoint) : Text := "\\u" ++ Text.hex 4 c.val

/-- A code point inside a string literal. -/
def escapePoint (c : CodePoint) : Text :=
  match shortEscape? c with
  | some t => t
  | none =>
    if c.val < 0x20 || c.val = 0x2028 || c.val = 0x2029 || c.isSurrogate then unitEscape c
    else [c]

/-- A text inside a string literal. -/
def escape (t : Text) : Text := t.flatMap escapePoint

/-- A string literal. -/
def string (t : Text) : Text := "\"" ++ escape t ++ "\""

/-- `true` or `false`. -/
def boolean (b : Bool) : Text := if b then "true" else "false"

/-- The literal of a double. Whole numbers below `10 ^ 21` are written out exactly. -/
def double (x : Double) : Text :=
  if x.isNaN then "NaN"
  else if x.isInfinite then if x.negative then "-Infinity" else "Infinity"
  else
    match x.toInt?.filter fun n => n.natAbs < 1000000000000000000000 with
    | some n => Text.ofInt n
    | none => x.shortest.signedLiteral x.negative

/-! ## Values in the place of plain ones -/

/-- The escaped form of one item of a walk. An item stands for a code point if it is a text of one
code point, or a single control octet. -/
def escapeItem : Value → Except Fault Text
  | .str [c] => .ok (escapePoint c)
  | .bytes [o] => if o < 0x20 then .ok ("\\u" ++ Text.hex 4 o.toNat) else .error .wrongType
  | _ => .error .wrongType

/-- The escaped form of a text, or of what a walk over another value meets. -/
def escapeOf (v : Value) : Except Fault Text :=
  match v with
  | .str t => .ok (escape t)
  | _ =>
    match v.elements? with
    | none => .error .wrongType
    | some items => (items.mapM escapeItem).map List.flatten

/-- The string literal of a text, or of what a walk over another value meets. -/
def stringOf (v : Value) : Except Fault Text := (escapeOf v).map fun t => "\"" ++ t ++ "\""

/-- The literal of a number. A boolean in its place is shown as in messages. -/
def numberOf : Value → Except Fault Text
  | .int i => .ok (Text.ofInt i)
  | .bool b => .ok (Value.bool b).display
  | .float x => .ok (double x)
  | _ => .error .wrongType

/-- The literal of what counts as true or false. -/
def booleanOf (v : Value) : Text := boolean v.isTruthy

end CompositeScript.Literal
