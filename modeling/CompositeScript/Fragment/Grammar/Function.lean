import CompositeScript.Fragment.Grammar.Pattern

/-!
Rules for functions, methods and classes.
-/

namespace CompositeScript.Fragment.Grammar

open Rule

/-- `async` before what it makes asynchronous, on the same line. -/
def asyncMark : Part := seq (keyword "async") lineGap

/-- Parameter list and body of a function that is `async`, a generator, both or neither. No
parameter waits for anything. -/
def functionRest (isAsync isGenerator : Bool) : Part :=
  spaced [role .parameters (ref (.parameters { inGenerator := isGenerator })),
    role .body (ref (.block { inAsync := isAsync, inGenerator := isGenerator }))]

/-- A function or generator as an expression, perhaps with a name. -/
def functionLiteral : Part :=
  let name := more (role .name ownName)
  let function (isAsync : Bool) := all [keyword "function", name, gap, functionRest isAsync false]
  let generator (isAsync : Bool) :=
    all [keyword "function", gap, token "*", name, gap, functionRest isAsync true]
  any [node .functionExpression (function false),
    node .functionExpression (seq asyncMark (function true)),
    node .generatorExpression (generator false),
    node .generatorExpression (seq asyncMark (generator true))]

/-- A function or generator as a statement. -/
def functionDeclaration : Part :=
  let name := role .name ownName
  let function (isAsync : Bool) := spaced [keyword "function", name, functionRest isAsync false]
  let generator (isAsync : Bool) :=
    spaced [keyword "function", token "*", name, functionRest isAsync true]
  any [node .functionDeclaration (function false),
    node .functionDeclaration (seq asyncMark (function true)),
    node .generatorDeclaration (generator false),
    node .generatorDeclaration (seq asyncMark (generator true))]

/-- A method with a mark before its `key`: it is asynchronous or a generator, or it stands for
reading or writing a property. -/
def markedMethod (key : Part) : Part :=
  let rest (isAsync isGenerator : Bool) := spaced [key, functionRest isAsync isGenerator]
  node .method
    (any [all [asyncMark, token "*", gap, rest true true], seq asyncMark (rest true false),
      spaced [keyword "get", rest false false], spaced [keyword "set", rest false false],
      spaced [token "*", rest false true]])

/-- What makes a method of the key before it. -/
def methodStep : Part := node .method (seq gap (functionRest false false))

/-- A key and what stands behind it. -/
def keyed (key step : Part) : Part := adapt Tree.leadKey (seq key step)

/-- What a member of a class may be called. -/
def memberKey (c : Context) : Part := alt (propertyKey c) privateName

/-- What makes a field of the key before it. -/
def fieldStep (c : Context) : Part :=
  node .classMember (seq (optional (initialValue c.anywhere)) semicolon)

/-- `get` or `set` before a key, which can be nothing but the mark of a method. -/
def accessorMark : Part :=
  let keyAhead := any [propertyName, point Lexeme.isQuote, number, token "[", privateName]
  spaced [alt (keyword "get") (keyword "set"), keyAhead]

/-- A method or a field. -/
def instanceMember (c : Context) : Part :=
  alt (markedMethod (memberKey c))
    (seq (refuse accessorMark) (keyed (memberKey c) (alt methodStep (fieldStep c))))

/-- A member of a class. -/
def classMember (c : Context) : Part :=
  any [token ";",
    node .classMember (spaced [keyword "static", alt (ref (.block {})) (instanceMember c)]),
    instanceMember c]

/-- What follows the name of a class. -/
def classRest (c : Context) : Part :=
  all [more (node .heritage (spaced [keyword "extends", ref (.chain c)])), gap,
    node .classBody (all [token "\x7b", gap, many (seq (classMember c) gap), token "\x7d"])]

/-- A class as an expression, perhaps with a name. -/
def classLiteral (c : Context) : Part :=
  node .classExpression (all [keyword "class", more (role .name ownName), classRest c])

/-- A class as a statement. -/
def classDeclaration (c : Context) : Part :=
  node .classDeclaration (all [keyword "class", gap, role .name ownName, classRest c])

end CompositeScript.Fragment.Grammar
