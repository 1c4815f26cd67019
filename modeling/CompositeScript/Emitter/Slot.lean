import CompositeScript.Emitter

/-!
Rendering of slots.

The content of a slot is a node or a list of nodes, each rendered by a node generator. A title goes
in front as a comment, which it cannot close, and parameters make the content the body of a
function.
-/

namespace CompositeScript.Slot

/-- Renders a node of a slot. -/
abbrev NodeRenderer := Value → Scope → Gen Text

/-- The text with a blank inside every `*/`. -/
def splitClosings : Text → Text
  | a :: b :: t =>
    if a = '*' && b = '/' then "* /" ++ splitClosings t else a :: splitClosings (b :: t)
  | t => t

/-- The nodes of a slot: a list of them in brackets, or a single one. -/
def renderNodes (node : NodeRenderer) (v : Value) (scope : Scope) : Gen Text :=
  match v.items? with
  | some items => do
    let texts ← items.mapM fun item => node item scope
    return "[" ++ Text.join "," texts ++ "]"
  | none => node v scope

/-- The comment that a title makes, which has to be a text. -/
def titleComment : Value → Except Fault Text
  | .str title => .ok ("/* " ++ splitClosings title ++ " */ ")
  | .bytes _ => .error .wrongType
  | _ => .error .noOperation

/-- A parameter, which has to be a text. -/
def parameter : Value → Except Fault Text
  | .str name => .ok name
  | _ => .error .wrongType

/-- The parameters of a slot with commas between them. -/
def parameterList (v : Value) : Except Fault Text :=
  match v.elements? with
  | none => .error .wrongType
  | some items => (items.mapM parameter).map (Text.join ", ")

/-- A field that counts as true. -/
def setField? (slot : Value) (name : Text) : Option Value := (slot.get? name).filter Value.isTruthy

/-- The text of a slot. -/
def render (node : NodeRenderer) (slot : Value) (scope : Scope) : Gen Text :=
  if slot.hasTag .slot then do
    let content ←
      match setField? slot "value" with
      | none => pure (Text.ofString "null")
      | some v => renderNodes node v scope
    let comment ←
      match setField? slot "title" with
      | none => pure []
      | some title => Gen.ofExcept (titleComment title)
    match setField? slot "params" with
    | none => return comment ++ content
    | some ps =>
      let names ← Gen.ofExcept (parameterList ps)
      return comment ++ "(" ++ names ++ ") => (" ++ content ++ ")"
  else Gen.fail (.notTagged .slot slot)

/-- The text of a slot, as the options have it. -/
def emitWith : Rendering → NodeRenderer → Value → Scope → Gen Text
  | .standard, node, slot, scope => render node slot scope
  | .telling, node, slot, scope =>
    match slot.entries? with
    | none => Gen.fail .noOperation
    | some es => do
      let content ← node ((Value.lookup "value" es).getD .null) scope
      return "S(" ++ content ++ ")"

/-- What is said when a slot is skipped. -/
def skipWarning : Text := "JSSlot skipped: no node generator configured"

end CompositeScript.Slot
