import CompositeScript.Fragment.Grammar.Expression
import CompositeScript.Fragment.Grammar.Statement

/-!
The grammar of JavaScript fragments: one rule for every symbol.
-/

namespace CompositeScript.Fragment

/-- The rule of a symbol. -/
def grammar : Symbol → Grammar.Part
  | .program => Grammar.program
  | .statement c => Grammar.statement c
  | .block c => Grammar.block c
  | .expression c => Grammar.expression c
  | .assignment c => Grammar.assignment c
  | .conditional c => Grammar.conditional c
  | .binary c => Grammar.binary c
  | .unary c => Grammar.unary c
  | .chain c => Grammar.chain c
  | .construction c => Grammar.construction c
  | .primary c => Grammar.primary c
  | .arguments c => Grammar.arguments c
  | .template c => Grammar.template c
  | .property c => Grammar.property c
  | .classLiteral c => Grammar.classLiteral c
  | .parameters c => Grammar.parameters c
  | .bindingTarget c => Grammar.bindingTarget c
  | .bindingElement c => Grammar.bindingElement c
  | .element c inContent => Grammar.element c inContent
  | .functionLiteral => Grammar.functionLiteral

end CompositeScript.Fragment
