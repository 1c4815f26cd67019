import CompositeScript.Emitter
import CompositeScript.Text.Blank

/-!
Rendering of expressions.

An expression is rendered as it is written, without the blanks at its ends, and a blank one as
`null`.
-/

namespace CompositeScript.Expression

/-- The code of a map with one of two tags, unless it is another value or has a defect. -/
def codeOf (tag other : Tag) (v : Value) : Except Fault Text :=
  if v.hasTag tag || v.hasTag other then
    match v.defect? with
    | some d => .error (.malformed v d)
    | none =>
      match v.get? "value" with
      | some (.str code) => .ok code
      | _ => .error .wrongType
  else .error (.notTagged tag v)

/-- The text of an expression. -/
def render (v : Value) : Except Fault Text :=
  (codeOf .expression .expression v).map fun code =>
    if code.strip.isEmpty then "null" else code.strip

/-- The expression that a variable stands for. -/
def ofCode (code : Value) : Value := .tagged .expression "value" code

/-- The text of an expression, as the options have it. -/
def emit : Rendering → Value → Scope → Gen Text
  | .standard, v, _ => Gen.ofExcept (render v)
  | .telling, v, scope => do
    let code ← Gen.shown (← Gen.field v "value")
    let scope ← Gen.display scope
    return "E(" ++ code ++ "|" ++ scope ++ ")"

end CompositeScript.Expression
