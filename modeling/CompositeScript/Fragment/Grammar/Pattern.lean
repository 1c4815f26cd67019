import CompositeScript.Fragment.Grammar.Basic

/-!
Rules for what a declaration or a parameter list binds, and for property keys.
-/

namespace CompositeScript.Fragment.Grammar

open Rule

/-- A name that refers to or binds a variable. -/
def identifier : Part := word .identifier Lexeme.name

/-- A name that is declared. -/
def ownName : Part := word .identifier Lexeme.ownName

/-- A name after a dot or before a colon, reserved words included. -/
def propertyName : Part := word .propertyName Lexeme.word

/-- A private name of a class. -/
def privateName : Part := word .privateName Lexeme.privateName

/-- A key in brackets. -/
def computedName (c : Context) : Part :=
  node .computedName (spaced [token "[", ref (.assignment c.anywhere), token "]"])

/-- What a property of an object may be called. -/
def propertyKey (c : Context) : Part :=
  any [propertyName, quoted Lexeme.string, number, computedName c]

/-- An initial value, with its mark. -/
def initialValue (c : Context) : Part :=
  all [gap, equalsSign, gap, role .right (ref (.assignment c))]

/-- The rest of a list or an object, gathered in a pattern. -/
def restPattern (c : Context) : Part :=
  node .restPattern (spaced [token "...", ref (.bindingTarget c)])

/-- A property of an object pattern. -/
def patternProperty (c : Context) : Part :=
  any [restPattern c,
    node .pairPattern (spaced [role .key (propertyKey c), token ":", ref (.bindingElement c)]),
    node .objectAssignmentPattern
      (seq (role .left (word .shorthandPattern Lexeme.ownName)) (initialValue c.anywhere)),
    word .shorthandPattern Lexeme.ownName]

/-- A name or a pattern of names. -/
def bindingTarget (c : Context) : Part :=
  any [identifier, word .constant (Lexeme.keyword "undefined"),
    node .objectPattern (enclosed "\x7b" (patternProperty c) "\x7d"),
    node .arrayPattern (arrayItems (alt (restPattern c) (ref (.bindingElement c))))]

/-- What a declaration binds: a name or a pattern of names. -/
def declared (c : Context) : Part := alt ownName (ref (.bindingTarget c))

/-- A name or a pattern of names, perhaps with an initial value. -/
def bindingElement (c : Context) : Part :=
  grow (Tree.leadOnce .left) (ref (.bindingTarget c))
    fun _ => node .assignmentPattern (initialValue c.anywhere)

/-- A parameter list in parentheses. Only the last parameter may gather the rest. -/
def patternList (c : Context) : Part :=
  let close := token ")"
  let closeBehindRest := seq (optional (seq (restPattern c) gap)) close
  node .formalParameters
    (all [token "(", gap,
      alt
        (all [separated (ref (.bindingElement c)), gap,
          alt close (all [comma, gap, closeBehindRest])])
        closeBehindRest])

end CompositeScript.Fragment.Grammar
