import CompositeScript.Fragment.Script
import CompositeScript.Text.Blank

/-!
The free names of a fragment.

The names are told apart by their place in the tree alone: a name that is declared anywhere in the
fragment counts as declared everywhere in it. A place either declares or refers. The root refers,
and a child takes over from its parent except where `childPlace` says otherwise.
-/

namespace CompositeScript.Fragment

/-- A construct that may give itself a name. -/
def Form.isDefinition : Form → Bool
  | .functionExpression | .functionDeclaration | .generatorExpression | .generatorDeclaration
  | .classExpression | .classDeclaration => true
  | _ => false

/-- A pattern with an initial value. -/
def Form.isDefaulted : Form → Bool
  | .assignmentPattern | .objectAssignmentPattern => true
  | _ => false

/-- A child that holds the names its parent declares. -/
def Form.declaresIn (parent : Form) (role : Role) : Bool :=
  match parent, role with
  | .variableDeclarator, .name | .arrowFunction, .parameter | .catchClause, .parameter
  | .forIn, .left => true
  | _, _ => false

namespace Tree

/-- Whether a child declares, its parent standing at a place that declares or not. The key of a
pattern is passed over. -/
def childPlace (parent : Tree) (declaring : Bool) (child : Tree) : Option Bool :=
  if parent.form.isDefinition && child.role == .name then some true
  else if parent.form == .formalParameters then some true
  else if parent.form.isDefaulted && child.role == .right then some false
  else if parent.form == .pairPattern && child.role == .key then none
  else if parent.form.declaresIn child.role then
    if parent.form == .forIn && (parent.child? .declarator).isNone then some declaring
    else some true
  else some declaring

/-- The tree is a name that declares. -/
def isDeclaration (t : Tree) : Bool := t.form == .identifier || t.form == .shorthandPattern

/-- The tree is a name that refers. -/
def isReferring (t : Tree) : Bool := t.form == .identifier || t.form == .shorthand

/-- The children to visit, each with whether it declares. -/
def visits (t : Tree) (declaring : Bool) : List (Tree × Bool) :=
  t.children.filterMap fun c => (t.childPlace declaring c).map (c, ·)

/-- The names found so far. -/
structure Names where
  referenced : List Text
  declared : List Text

/-- Visits the waiting trees, at most `steps` of them, children before the trees that wait behind
their parent. -/
def collect : (steps : Nat) → List (Tree × Bool) → Names → Names
  | 0, _, names => names
  | _ + 1, [], names => names
  | n + 1, (t, declaring) :: waiting, names =>
    if declaring && t.isDeclaration then
      collect n waiting { names with declared := t.text :: names.declared }
    else if !declaring && t.isReferring then
      collect n waiting { names with referenced := t.text :: names.referenced }
    else collect n (t.visits declaring ++ waiting) names

/-- The names of a tree that stands at a referring place. -/
def names (t : Tree) : Names := collect t.size [(t, false)] ⟨[], []⟩

/-- The names referred to and not declared, in increasing order by code point. -/
def Names.free (names : Names) : List Text :=
  Text.sort (names.referenced.filter fun n => !names.declared.contains n).eraseDups

/-- The names that the tree refers to and does not declare. -/
def freeNames (t : Tree) : List Text := t.names.free

end Tree

/-- The names that a fragment refers to and does not declare. In a text that is no script they are
those that the parser makes out. -/
def freeNames (parser : Parser) (code : Text) : Except Fault (List Text) :=
  if code.isBlank then .ok []
  else (readWrapped parser code).map fun script => script.root.freeNames

end CompositeScript.Fragment
