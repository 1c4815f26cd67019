import CompositeScript.Fragment.Script
import CompositeScript.Text.Blank

/-!
Functions written as arrow functions.

If the parentheses around a fragment hold a single function and nothing else, not even a comment,
its parameter list and body are written with an arrow between them. Any other fragment stays as it
is, but for the blanks at its ends.
-/

namespace CompositeScript.Fragment

namespace Tree

/-- The only child that is more than punctuation. -/
def onlyChild? (t : Tree) : Option Tree :=
  match t.namedChildren with
  | [c] => some c
  | _ => none

/-- The parentheses that a script negates, if it does nothing else. -/
def operand? (script : Tree) : Option Tree := do
  let statement ← script.onlyChild?
  if statement.form != .expressionStatement then none
  let negation ← statement.onlyChild?
  let operand ← negation.child? .argument
  if operand.form != .parenthesized then none
  some operand

/-- The expression that a script holds in negated parentheses, and nothing beside it. -/
def wrapped? (script : Tree) : Option Tree := do (← script.operand?).onlyChild?

/-- The arrow function that does what a function expression does, but for its name, `this` and
`arguments`. -/
def toArrow? (function : Tree) : Option Text := do
  if function.form != .functionExpression then none
  let parameters ← function.child? .parameters
  let body ← function.child? .body
  let isAsync := function.children.any fun c => c.form == .token && c.text == "async"
  some ((if isAsync then "async " else "") ++ parameters.text ++ " => " ++ body.text)

end Tree

/-- The expression that a fragment is, if the text around it is a script. -/
def Script.expression? (s : Script) : Option Tree := if s.hasError then none else s.root.wrapped?

/-- The fragment with a function expression written as an arrow function. -/
def toArrow (parser : Parser) (code : Text) : Except Fault Text :=
  let code := code.strip
  (readWrapped parser code).map fun script => (script.expression?.bind Tree.toArrow?).getD code

end CompositeScript.Fragment
