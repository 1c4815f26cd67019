import CompositeScript.Fragment.Rule
import CompositeScript.Fragment.Lexeme
import CompositeScript.Fragment.Target

/-!
The symbols of the fragment grammar and the rules that all of its parts share.

Blanks and comments are read between the parts of a construct and never at its two ends, so a node
starts and ends with a token, and a comment is a child of the construct around it.
-/

namespace CompositeScript.Fragment

/-- What surrounds a piece of a fragment: words that are operators in one place are names in
another. -/
structure Context where
  /-- `in` is an operator, as everywhere but in the header of a loop. -/
  allowIn : Bool := true
  /-- `await` is an operator: this is the inside of an `async` function. -/
  inAsync : Bool := false
  /-- `yield` is an operator: this is the inside of a generator. -/
  inGenerator : Bool := false
  deriving DecidableEq, Repr

namespace Context

/-- The same surroundings, but outside of a loop header. -/
def anywhere (c : Context) : Context := { c with allowIn := true }

/-- The same surroundings, in the header of a loop. -/
def inHeader (c : Context) : Context := { c with allowIn := false }

end Context

/-- The symbols of the grammar. -/
inductive Symbol
  | program
  | statement (c : Context) | block (c : Context)
  | expression (c : Context) | assignment (c : Context) | conditional (c : Context)
  | binary (c : Context) | unary (c : Context) | chain (c : Context)
  | construction (c : Context) | primary (c : Context) | arguments (c : Context)
  | template (c : Context) | property (c : Context) | classLiteral (c : Context)
  | functionLiteral
  | parameters (c : Context) | bindingTarget (c : Context) | bindingElement (c : Context)
  | element (c : Context) (inContent : Bool)
  deriving DecidableEq, Repr

namespace Grammar

open Rule

/-- A piece of the grammar. -/
abbrev Part := Rule Symbol

/-- Punctuation. -/
def token (p : Text) : Part := leaf .token (.plain (Lexeme.mark p []) true)

/-- Punctuation that none of `stops` follows. -/
def tokenNot (p stops : Text) : Part := leaf .token (.plain (Lexeme.mark p stops) true)

/-- A comma, which may separate what stands around it or end a list. -/
def comma : Part := leaf .token (.plain (Lexeme.mark "," []) false)

/-- A name or another word, which may be read in more than one way. -/
def word (f : Form) (length : Text → Option Nat) : Part := leaf f (.plain length false)

/-- A word of the language itself. -/
def keyword (w : Text) : Part := word .token (Lexeme.keyword w)

/-- An operator. -/
def operator (length : Text → Option Nat) : Part := leaf .token (.plain length true)

/-- The next code point, if `p` accepts it. -/
def point (p : CodePoint → Bool) : Part :=
  leaf .token (.plain (fun s => if Lexeme.starts p s then some 1 else none) true)

/-- A number. -/
def number : Part := leaf .number (.plain Lexeme.number true)

/-- Text in quotes, which end as `length` says. -/
def quoted (length : Text → Option Nat) : Part :=
  leaf .string ⟨Lexeme.starts Lexeme.isQuote, length, true⟩

/-- A mark with the characters or the markup text behind it. -/
def textMark (length : Text → Option Nat) : Part := leaf .characters (.plain length true)

/-- The rule for a name, except the words that are operators here. -/
def unlessOperator (c : Context) (r : Part) : Part :=
  let except (isOperator : Bool) (w : Text) (r : Part) :=
    if isOperator then seq (refuse (keyword w)) r else r
  except c.inAsync "await" (except c.inGenerator "yield" r)

/-- Blanks and comments. -/
def gap : Part := blanks fun _ => true

/-- Blanks and comments on one line. -/
def lineGap : Part := blanks fun ts => !hasNewline ts

/-- Blanks and comments over more than one line. -/
def newline : Part := blanks hasNewline

/-- Nothing is left to read. -/
def finish : Part := refuse (point fun _ => true)

/-- The rules one after the other, with gaps between them. -/
def spaced : List Part → Part
  | [] => done
  | [r] => r
  | r :: rs => seq r (seq gap (spaced rs))

/-- A gap and the rule, or neither. -/
def more (r : Part) : Part := optional (seq gap r)

/-- The mark of an assignment or of an initial value. -/
def equalsSign : Part := tokenNot "=" "=>"

/-- One or more items with commas between them. -/
def separated (item : Part) : Part := seq item (many (all [gap, comma, gap, item]))

/-- Items between two marks, with commas between them and perhaps one after the last. -/
def enclosed (opening : Text) (item : Part) (closing : Text) : Part :=
  all [token opening, gap, optional (all [separated item, more comma, gap]), token closing]

/-- The items of an array between brackets; any of them may be left out. -/
def arrayItems (item : Part) : Part :=
  let commas := many (seq comma gap)
  all [token "[", gap, commas,
    optional (all [item, many (all [gap, comma, gap, commas, item]), gap]), commas, token "]"]

/-- An expression in parentheses. -/
def parenthesized (c : Context) : Part :=
  node .parenthesized (spaced [token "(", ref (.expression c.anywhere), token ")"])

/-- The end of a statement: a semicolon, or a place where it may be left out. A line that starts
with `/=` goes on with the statement before it. -/
def semicolon : Part :=
  any [seq gap (token ";"), ahead (seq gap (token "\x7d")), ahead (seq gap finish),
    ahead (seq newline (refuse (token "/=")))]

end Grammar

end CompositeScript.Fragment
