import CompositeScript.Fragment.Grammar.Function

/-!
Rules for statements.
-/

namespace CompositeScript.Fragment.Grammar

open Rule

/-- Statements in braces. -/
def block (c : Context) : Part :=
  node .statementBlock
    (all [token "\x7b", gap, many (seq (ref (.statement c)) gap), token "\x7d"])

/-! ## Declarations -/

/-- `let` as the word that declares variables, which it is only before a name or a pattern. -/
def letDeclarator : Part :=
  seq (keyword "let") (ahead (seq gap (any [ownName, token "[", token "\x7b"])))

/-- A word that declares variables. -/
def declarator : Part := any [keyword "var", keyword "const", letDeclarator]

/-- The variables of a declaration, with their initial values. -/
def declaration (c : Context) : Part :=
  node .variableDeclaration
    (spaced [declarator,
      separated
        (node .variableDeclarator
          (seq (role .name (declared c)) (optional (initialValue c))))])

/-! ## Loops -/

/-- What a loop starts with: a declaration or an expression, and perhaps the value whose keys or
items it goes over. -/
def loopStart (c : Context) (isAwaited : Bool) : Part :=
  grow (Tree.iterate isAwaited) (alt (declaration c.inHeader) (ref (.expression c.inHeader)))
    fun _ => node .forIn (all [gap, alt (keyword "of") (keyword "in"), gap, ref (.expression c)])

/-- Either a loop goes over a value, or it has a condition and a step. -/
def isLoopHeader (ts : List Tree) : Bool :=
  ts.any (·.form == .forIn) != ts.any fun t => t.form == .token && t.text == ";"

/-- A loop over the keys or items of a value, or one with a start, a condition and a step, each of
which may be left out. -/
def loop (c : Context) : Part :=
  let clause := optional (seq (ref (.expression c)) gap)
  let clauses := all [token ";", gap, clause, token ";", gap, clause]
  let header (isAwaited : Bool) := test isLoopHeader
    (alt clauses (all [loopStart c isAwaited, gap, if isAwaited then done else optional clauses]))
  all [keyword "for", gap,
    alt (all [keyword "await", gap, token "(", gap, header true])
      (all [token "(", gap, header false]),
    token ")", gap, ref (.statement c)]

/-! ## Jumps and branches -/

/-- A label. -/
def label (c : Context) : Part := unlessOperator c (word .label Lexeme.ownName)

/-- A jump with the label it goes to, which may be left out. -/
def jump (c : Context) (w : Text) : Part :=
  all [keyword w, optional (seq lineGap (label c)), semicolon]

/-- One case of a switch. -/
def switchCase (c : Context) : Part :=
  node .switchCase
    (seq
      (spaced [alt (spaced [keyword "case", ref (.expression c)]) (keyword "default"), token ":"])
      (many (seq gap (ref (.statement c)))))

/-- The handler of a failed block, with the name it gives the failure. -/
def catchClause (c : Context) : Part :=
  node .catchClause
    (all [keyword "catch",
      more (spaced [token "(", role .parameter (declared c), token ")"]), gap,
      ref (.block c)])

/-- What follows a tried block. -/
def handlers (c : Context) : Part :=
  let cleanUp := spaced [keyword "finally", ref (.block c)]
  alt (seq (catchClause c) (more cleanUp)) cleanUp

/-! ## Statements -/

/-- A statement that starts with a word of its own. -/
def keywordStatement (c : Context) : Part :=
  let condition := parenthesized c
  let body := ref (.statement c)
  any [token ";",
    seq (declaration c) semicolon,
    seq (spaced [keyword "if", condition, body]) (more (spaced [keyword "else", body])),
    all [keyword "return", optional (seq lineGap (ref (.expression c))), semicolon],
    loop c,
    spaced [keyword "while", condition, body],
    seq (spaced [keyword "do", body, keyword "while", condition]) (more (token ";")),
    all [keyword "throw", lineGap, ref (.expression c), semicolon],
    spaced [keyword "try", ref (.block c), handlers c],
    spaced [keyword "switch", condition,
      node .switchBody (all [token "\x7b", gap, many (seq (switchCase c) gap), token "\x7d"])],
    jump c "break", jump c "continue", seq (keyword "debugger") semicolon,
    spaced [keyword "with", condition, body],
    spaced [label c, token ":", body]]

/-- An expression as a statement. What looks like a block or a declaration is none. -/
def expressionStatement (c : Context) : Part :=
  node .expressionStatement
    (all [refuse (any [token "\x7b", keyword "function", seq asyncMark (keyword "function"),
        keyword "class", letDeclarator]),
      ref (.expression c), semicolon])

/-- A statement or declaration. -/
def statement (c : Context) : Part :=
  any [ref (.block c), node .statement (keywordStatement c), functionDeclaration,
    classDeclaration c, expressionStatement c]

/-- A whole script. -/
def program : Part := node .program (all [gap, many (seq (ref (.statement {})) gap), finish])

end CompositeScript.Fragment.Grammar
