import CompositeScript.Json.Plain
import CompositeScript.Literal

/-!
Compact JSON.

Only the quote, the backslash and the controls are escaped; all else is written as it is.
-/

namespace CompositeScript.Json

/-- A code point inside a JSON string. -/
def escapePoint (c : CodePoint) : Text :=
  match Literal.shortEscape? c with
  | some t => t
  | none => if c.val < 0x20 then Literal.unitEscape c else [c]

/-- A JSON string. -/
def string (t : Text) : Text := "\"" ++ t.flatMap escapePoint ++ "\""

/-- A double in JSON, or one of the three names for what JSON has no number for. -/
def double (x : Double) : Text :=
  if x.isNaN then "NaN"
  else if x.isInfinite then if x.negative then "-Infinity" else "Infinity"
  else x.display

mutual

/-- The text of plain data. -/
def write : Value → Except Fault Text
  | .null => .ok "null"
  | .bool b => .ok (Literal.boolean b)
  | .int i => .ok (Text.ofInt i)
  | .float x => .ok (double x)
  | .str t => .ok (string t)
  | .list xs => (writeItems xs).map fun ts => "[" ++ Text.join "," ts ++ "]"
  | .map _ es => (writeMembers es).map fun ts => "\x7b" ++ Text.join "," ts ++ "\x7d"
  | .undefined | .tuple _ | .set _ | .bytes _ | .range _ => .error .wrongType

/-- The texts of the items. -/
def writeItems : List Value → Except Fault (List Text)
  | [] => .ok []
  | x :: xs => do
    let t ← write x
    let ts ← writeItems xs
    return t :: ts

/-- The texts of the members. -/
def writeMembers : List (Value × Value) → Except Fault (List Text)
  | [] => .ok []
  | (k, v) :: es => do
    let t ← write v
    let ts ← writeMembers es
    return (string k.shown ++ ":" ++ t) :: ts

end

/-- The JSON text of a value, as plain data. -/
def render (v : Value) : Except Fault Text := write v.plain

end CompositeScript.Json
