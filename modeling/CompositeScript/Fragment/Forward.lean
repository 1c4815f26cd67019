import CompositeScript.Text

/-!
Forwarding functions.

Designers used to store the binding of a method as a function that applies the method to its own
arguments and some more:
`function(){this.foo.apply(this,Array.prototype.slice.call(arguments).concat([1,2]))}`. Such a
fragment is recognized by its text, and written as the arrow function that calls the method with all
its arguments and the further ones. Line ends and tabs in it do not count.
-/

namespace CompositeScript.Fragment

/-- The fragment on one line, without tabs. -/
def oneLine (code : Text) : Text := code.filter fun c => c ≠ '\r' && c ≠ '\t' && c ≠ '\n'

/-- What a forwarding function starts with. -/
def forwardHead : Text := "function()"

/-- What hands the arguments on. -/
def forwardCall : Text := ".apply(this,Array.prototype.slice.call(arguments).concat(["

/-- The fragment is a forwarding function. -/
def isForward (code : Text) : Bool :=
  (oneLine code).startsWith forwardHead && (oneLine code).includes forwardCall

/-- The text between the first two dots, or up to the end where there is one dot only. -/
def betweenDots (line : Text) : Text := (line.after '.').before '.'

/-- The text in the first brackets. At least one code point stands in them. -/
def bracketed? (line : Text) : Option Text :=
  match line.after '[' with
  | [] => none
  | c :: rest =>
    if rest.contains (']' : CodePoint) then some (c :: Text.before ']' rest) else none

/-- The arrow function that forwards as the fragment does. -/
def forwardArrow (code : Text) : Text :=
  let line := oneLine code
  let further : Text := (bracketed? line).elim [] fun t => ", " ++ t
  "(...args) => \x7b " ++ betweenDots line ++ "(...args" ++ further ++ "); \x7d"

end CompositeScript.Fragment
