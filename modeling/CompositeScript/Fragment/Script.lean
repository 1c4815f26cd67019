import CompositeScript.Fragment.Tree
import CompositeScript.Fault

/-!
Scripts, and the parsers that read them.

What is done with a fragment is done with the tree that a parser makes of it, whichever parser that
is. A fragment is read in the place of an expression: negated, in parentheses, as a statement of a
script. It may close the parentheses itself and go on behind them.
-/

namespace CompositeScript.Fragment

/-- What a parser makes of a text. -/
structure Script where
  /-- The statements, with the gaps between them. -/
  children : List Tree
  /-- The text is no script, and the trees are what could be made out in it. -/
  hasError : Bool

/-- The tree of the whole text. -/
def Script.root (s : Script) : Tree := .node .plain .program s.children

/-- Makes a script of a text, of any text. -/
abbrev Parser := Text → Script

/-- The fragment in the place of an expression. -/
def wrap (code : Text) : Text := "!(" ++ code ++ ");"

/-- The script around a fragment. Only a text with a UTF-8 form is read. -/
def readWrapped (parser : Parser) (code : Text) : Except Fault Script :=
  if code.hasSurrogate then .error .notEncodable else .ok (parser (wrap code))

end CompositeScript.Fragment
