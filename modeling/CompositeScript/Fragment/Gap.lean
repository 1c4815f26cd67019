import CompositeScript.Fragment.Lexeme
import CompositeScript.Fragment.Tree

/-!
Gaps: the blanks and comments between two tokens.
-/

namespace CompositeScript.Fragment

namespace Lexeme

/-- A comment that goes to the end of its line. One of the marks starts it only where a line
starts, at a `fresh` place. -/
def startsLineComment (fresh : Bool) (s : Text) : Bool :=
  s.startsWith "//" || s.startsWith "<!--" || (fresh && s.startsWith "-->")

/-- The blank or comment at the front of a text, if one is there: what it is, and its length unless
it has no end. -/
def blank (fresh : Bool) (s : Text) : Option (Form × Option Nat) :=
  match spaces s with
  | some n => some (.blank, some n)
  | none =>
    if s.startsWith "/*" then some (.comment, blockCommentEnd 2 (s.drop 2))
    else if startsLineComment fresh s then some (.comment, some (lineEnd s))
    else none

end Lexeme

/-- The trees hold the end of a line. -/
def hasNewline (ts : List Tree) : Bool := (Tree.texts ts).any Lexeme.isNewline

/-- The blanks and comments at the front of a text and the rest of it, unless one of the first
`steps` has no end. -/
def gapTrees : (steps : Nat) → (fresh : Bool) → Text → Option (List Tree × Text)
  | 0, _, s => some ([], s)
  | k + 1, fresh, s =>
    match Lexeme.blank fresh s with
    | none => some ([], s)
    | some (_, none) => none
    | some (f, some n) =>
      (gapTrees k (fresh || (s.take n).any Lexeme.isNewline) (s.drop n)).map fun (ts, rest) =>
        (.leaf .plain f (s.take n) :: ts, rest)

/-- The gap at the front of a text and the rest of it, unless a comment in it has no end. -/
def gap? (s : Text) : Option (List Tree × Text) := gapTrees s.length false s

end CompositeScript.Fragment
