import CompositeScript.Fragment.Grammar.Function
import CompositeScript.Fragment.Grammar.Element

/-!
Rules for expressions.

Operators between two operands are read as one chain from the left: which of them binds more
tightly is of no concern to what the fragment refers to.
-/

namespace CompositeScript.Fragment.Grammar

open Rule

/-! ## Operands -/

/-- A value the language names itself. -/
def constant : Part :=
  any (["this", "null", "undefined", "true", "false", "super"].map fun (w : String) =>
    word .constant (Lexeme.keyword w))

/-- A template with its substitutions. The characters are read as a part of the mark before
them. -/
def template (c : Context) : Part :=
  let substitution := node .substitution
    (spaced [token "$\x7b", ref (.expression c.anywhere), textMark (Lexeme.charactersAfter '\x7d')])
  node .template (all [textMark (Lexeme.charactersAfter '\x60'), many substitution, token "\x60"])

/-- A property of an object. `{a = 1}` is good only as a pattern. -/
def property (c : Context) : Part :=
  let shorthand := unlessOperator c (word .shorthand Lexeme.ownName)
  let pairStep := node .pair (all [gap, token ":", gap, ref (.assignment c.anywhere)])
  any [spread c, markedMethod (propertyKey c), keyed (propertyKey c) (alt pairStep methodStep),
    node .coverInitializer (seq (role .left shorthand) (initialValue c.anywhere)),
    shorthand]

/-- A list in parentheses. With a comma or a rest at its end, or nothing in it, it is good only as
a parameter list, which ends with `close`. -/
def listed (c : Context) (close : Part) : Part :=
  let onlyParameters := seq (optional (seq (spread c) gap)) close
  all [token "(", gap,
    alt
      (all [ref (.expression c.anywhere), gap,
        alt (token ")") (all [comma, gap, onlyParameters])])
      onlyParameters]

/-- An expression in parentheses, or the parameters before an arrow. -/
def parentheses (c : Context) : Part :=
  node .parenthesized (listed c (seq (token ")") (ahead (seq lineGap (token "=>")))))

/-- A parameter list. It looks like the expressions that its parameters are set from, but not in a
generator, where `yield` is an operator in expressions and a name in patterns. -/
def parameters (c : Context) : Part :=
  if c.inGenerator then patternList c else adapt Tree.asParameters (listed c (token ")"))

/-- What the module system and the constructor call provide. -/
def metaProperty : Part :=
  alt (node .constant (spaced [keyword "import", token ".", keyword "meta"]))
    (node .constant (spaced [keyword "new", token ".", keyword "target"]))

/-- A regular expression. -/
def regex : Part := leaf .regex ⟨fun s => (Lexeme.mark "/" "/*" s).isSome, Lexeme.regex, true⟩

/-- An operand without operators. -/
def primary (c : Context) : Part :=
  any [ref .functionLiteral, unlessOperator c identifier, constant, parentheses c,
    quoted Lexeme.string, number,
    node .object (enclosed "\x7b" (ref (.property c)) "\x7d"),
    node .array (arrayItems (alt (spread c) (ref (.assignment c.anywhere)))),
    ref (.template c), ref (.classLiteral c), regex, ref (.element c false),
    seq (word .constant (Lexeme.keyword "import")) (ahead (seq gap (token "("))),
    seq privateName (ahead (seq gap (keyword "in")))]

/-! ## Chains -/

/-- The arguments of a call. -/
def arguments (c : Context) : Part :=
  node .arguments (enclosed "(" (alt (spread c) (ref (.assignment c.anywhere))) ")")

/-- An index in brackets. -/
def bracketed (c : Context) : Part := spaced [token "[", ref (.expression c.anywhere), token "]"]

/-- A property by name. -/
def memberStep : Part :=
  node .member (all [gap, tokenNot "." ".", gap, alt propertyName privateName])

/-- A property by value. -/
def subscriptStep (c : Context) : Part := node .subscript (seq gap (bracketed c))

/-- A template handed to a function. -/
def templateStep (c : Context) : Part := node .call (seq gap (ref (.template c)))

/-- A call. -/
def callStep (c : Context) : Part := node .call (seq gap (ref (.arguments c)))

/-- A property or call behind `?.`. -/
def optionalStep (c : Context) : Part :=
  let behindMark (r : Part) := all [gap, word .token Lexeme.chainMark, gap, r]
  alt (node .member (behindMark (any [propertyName, privateName, bracketed c])))
    (node .call (behindMark (ref (.arguments c))))

/-- What properties and calls can stand behind. -/
def chainStart (c : Context) : Part :=
  any [metaProperty, ref (.construction c), ref (.primary c)]

/-- A constructor call, whose arguments may be left out. A loaded module or markup is never built
this way. -/
def construction (c : Context) : Part :=
  node .new
    (all [keyword "new", gap, refuse (alt (spaced [keyword "import", token "("]) (token "<")),
      grow (Tree.lead .plain) (chainStart c)
        (fun _ => any [memberStep, subscriptStep c, templateStep c]),
      alt (refuse (seq gap (token "("))) (seq gap (ref (.arguments c)))])

/-- An operand with the properties and calls behind it. A mark that opens one more goes on with the
chain, even on a line of its own. -/
def chain (c : Context) : Part :=
  grow (Tree.lead .plain) (chainStart c)
    fun _ => any [callStep c, memberStep, subscriptStep c, optionalStep c, templateStep c]

/-! ## Operators -/

/-- The start of an operand that no operator between operands looks like. -/
def operandAhead : Part :=
  seq (refuse (alt (keyword "in") (keyword "instanceof")))
    (ahead (point fun c => Lexeme.isNamePart c || List.elem c (Text.ofString "\"'\x7b!~")))

/-- The word `w` as an operator: always where `isOperator`, elsewhere only before what on the same
line can be nothing but its operand. -/
def wordOperator (isOperator : Bool) (w : Text) (between : Part) : Part :=
  if isOperator then seq (keyword w) between else all [keyword w, lineGap, operandAhead]

/-- An operand with the operators before and behind it. -/
def unary (c : Context) : Part :=
  let increment := alt (token "++") (token "--")
  any [node .unary (spaced [operator Lexeme.unaryOperator, role .argument (ref (.unary c))]),
    node .update (spaced [increment, ref (.unary c)]),
    node .await (seq (wordOperator c.inAsync "await" gap) (ref (.unary c))),
    grow (Tree.leadOnce .plain) (ref (.chain c)) fun _ => node .update (seq lineGap increment)]

/-- Operands with operators between them. An operator goes on with the expression, even on a line of
its own. -/
def binary (c : Context) : Part :=
  grow (Tree.lead .plain) (ref (.unary c)) fun _ =>
    node .binary (all [gap, operator (Lexeme.binaryOperator c.allowIn), gap, ref (.unary c)])

/-- A choice between two expressions, or just an operand. -/
def conditional (c : Context) : Part :=
  grow (Tree.lead .plain) (ref (.binary c)) fun _ =>
    node .ternary
      (all [gap, operator Lexeme.questionMark, gap, ref (.assignment c.anywhere), gap, token ":",
        gap, ref (.assignment c)])

/-- An arrow and the body behind it. A brace always opens a block. -/
def arrowRest (c : Context) (isAsync : Bool) : Part :=
  let inside : Context := { inAsync := isAsync }
  all [lineGap, token "=>", gap,
    role .body (alt (ref (.block inside))
      (seq (refuse (token "\x7b")) (ref (.assignment { inside with allowIn := c.allowIn }))))]

/-- An `async` arrow function with a single name for its parameters. -/
def asyncArrow (c : Context) : Part :=
  node .arrowFunction (all [asyncMark, role .parameter ownName, arrowRest c true])

/-- A value handed out of a generator. -/
def yield (c : Context) : Part :=
  let value := seq (optional (seq (token "*") gap)) (ref (.assignment c))
  let mark := wordOperator c.inGenerator "yield" lineGap
  node .yield (if c.inGenerator then alt (seq mark value) (keyword "yield") else seq mark value)

/-- An operand with an assignment or an arrow behind it, or without. A call of `async` before an
arrow is the head of an `async` function. -/
def operation (c : Context) : Part :=
  grow Tree.attach (ref (.conditional c)) fun base =>
    any [node .assignment (initialValue c),
      node .augmentedAssignment
        (all [gap, operator Lexeme.augmentedOperator, gap, role .right (ref (.assignment c))]),
      node .arrowFunction (arrowRest c base.asyncParameters?.isSome)]

/-- An expression without commas. -/
def assignment (c : Context) : Part := any [yield c, asyncArrow c, operation c]

/-- An expression. -/
def expression (c : Context) : Part :=
  grow (Tree.lead .plain) (ref (.assignment c))
    fun _ => node .sequence (all [gap, comma, gap, ref (.assignment c)])

end CompositeScript.Fragment.Grammar
