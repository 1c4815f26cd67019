import CompositeScript.Text

/-!
Concrete trees of JavaScript fragments.

A tree keeps every code point of the fragment it was read from: blanks, comments and punctuation
are leaves like names and numbers, so the leaves in order spell the fragment (`Tree.text`). A leaf
or node has a `Form`, which says what it is, and a `Role`, which says what it is for its parent.
-/

namespace CompositeScript.Fragment

/-- What a piece of a fragment is. Pieces that nothing tells apart may share a form. -/
inductive Form
  | blank | comment | token
  | identifier | shorthand | shorthandPattern | propertyName | privateName | label
  | constant | number | string | regex | characters
  | program | expressionStatement | statement | statementBlock | switchBody | switchCase
  | variableDeclaration | variableDeclarator | catchClause | forIn
  | functionDeclaration | generatorDeclaration | functionExpression | generatorExpression
  | classDeclaration | classExpression | classBody | heritage | classMember | method
  | arrowFunction | formalParameters | arguments
  | parenthesized | sequence | assignment | augmentedAssignment | ternary | binary | unary | update
  | await | yield | new | call | member | subscript | template | substitution
  | array | object | pair | spread | coverInitializer | computedName
  | arrayPattern | objectPattern | pairPattern | restPattern | assignmentPattern
  | objectAssignmentPattern
  | element | elementName | elementAttribute | elementExpression
  | other
  deriving DecidableEq, Repr

/-- What a piece of a fragment is for the piece around it. -/
inductive Role
  | plain | name | parameter | parameters | body | argument | left | right | key | declarator
  deriving DecidableEq, Repr

/-- A fragment read into leaves and nodes. -/
inductive Tree
  | leaf (role : Role) (form : Form) (text : Text)
  | node (role : Role) (form : Form) (children : List Tree)
  deriving Repr

namespace Tree

/-- What the tree is for its parent. -/
def role : Tree → Role
  | leaf r _ _ | node r _ _ => r

/-- What the tree is. -/
def form : Tree → Form
  | leaf _ f _ | node _ f _ => f

/-- The trees right below the root. -/
def children : Tree → List Tree
  | leaf _ _ _ => []
  | node _ _ ts => ts

/-- The same tree in another role. -/
def withRole (r : Role) : Tree → Tree
  | leaf _ f t => leaf r f t
  | node _ f ts => node r f ts

mutual

/-- The text the tree was read from. -/
def text : Tree → Text
  | leaf _ _ t => t
  | node _ _ ts => texts ts

/-- The text the trees were read from, one after the other. -/
def texts : List Tree → Text
  | [] => []
  | t :: ts => t.text ++ texts ts

end

mutual

/-- The number of leaves and nodes. -/
def size : Tree → Nat
  | leaf _ _ _ => 1
  | node _ _ ts => sizes ts + 1

/-- The number of leaves and nodes of all the trees. -/
def sizes : List Tree → Nat
  | [] => 0
  | t :: ts => t.size + sizes ts

end

mutual

/-- Some leaf or node has a form that `p` accepts. -/
def anyForm (p : Form → Bool) : Tree → Bool
  | leaf _ f _ => p f
  | node _ f ts => p f || anyForms p ts

/-- Some leaf or node of one of the trees has a form that `p` accepts. -/
def anyForms (p : Form → Bool) : List Tree → Bool
  | [] => false
  | t :: ts => t.anyForm p || anyForms p ts

end

/-- White space or a comment. -/
def isBlank (t : Tree) : Bool := t.form == .blank || t.form == .comment

/-- More than punctuation, a keyword or white space: a tree that counts as a child. -/
def isNamed (t : Tree) : Bool := t.form != .token && t.form != .blank

/-- The children that are more than punctuation, keywords and white space. Comments are among
them. -/
def namedChildren (t : Tree) : List Tree := t.children.filter isNamed

/-- The first child in the role. -/
def child? (t : Tree) (r : Role) : Option Tree := t.children.find? (·.role == r)

end Tree

end CompositeScript.Fragment
