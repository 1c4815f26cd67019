import CompositeScript.Fragment.Grammar.Pattern

/-!
Rules for markup elements in expressions.

The text between two tags is read as a part of the mark before it, which ends a tag or an
expression.
-/

namespace CompositeScript.Fragment.Grammar

open Rule

/-- A part of the name of an element or of an attribute. -/
def elementWord (f : Form) : Part := leaf f (.plain Lexeme.elementWord true)

/-- The second part of a qualified name. -/
def localName : Part := all [gap, token ":", gap, elementWord .identifier]

/-- The name of an element: plain, qualified, or a property of a variable. -/
def elementName : Part :=
  node .elementName
    (seq (elementWord .identifier)
      (alt localName (many (all [gap, token ".", gap, elementWord .propertyName]))))

/-- The name of an attribute, plain or qualified. -/
def attributeName : Part :=
  adapt Tree.asAttributeName (seq (elementWord .identifier) (optional localName))

/-- Elements taken from an iterable value. -/
def spread (c : Context) : Part :=
  node .spread (spaced [token "...", ref (.assignment c.anywhere)])

/-- The end of a tag or of an expression in braces, and in the content of an element the text behind
it. -/
def elementEnd (inContent : Bool) (p : CodePoint) : Part :=
  if inContent then textMark (Lexeme.textAfter p) else token [p]

/-- An expression in braces, which may be left out. -/
def elementExpression (c : Context) (inContent : Bool) : Part :=
  node .elementExpression
    (all [token "\x7b", gap, optional (seq (alt (spread c) (ref (.expression c.anywhere))) gap),
      elementEnd inContent '\x7d'])

/-- An attribute, or attributes taken from an object. -/
def elementAttribute (c : Context) : Part :=
  node .elementAttribute
    (alt (spaced [token "\x7b", spread c, token "\x7d"])
      (seq attributeName
        (optional
          (all [gap, token "=", gap,
            any [quoted Lexeme.attributeString, elementExpression c false,
              ref (.element c false)]]))))

/-- What stands between two tags, with the end of the first. -/
def elementContent (c : Context) : Part :=
  seq (elementEnd true '>') (many (alt (elementExpression c true) (ref (.element c true))))

/-- An element or a nameless group of elements. -/
def element (c : Context) (inContent : Bool) : Part :=
  let close := elementEnd inContent '>'
  node .element
    (all [tokenNot "<" "/!", gap,
      alt (seq (elementContent c) (spaced [token "</", close]))
        (all [elementName, many (seq gap (elementAttribute c)), gap,
          alt (spaced [tokenNot "/" "/*", close])
            (seq (elementContent c) (spaced [token "</", elementName, close]))])])

end CompositeScript.Fragment.Grammar
