import CompositeScript.Fragment.Gap

/-!
Expressions seen as patterns.

Whether `{a, b: c}` is an object or a pattern shows only at the `=` or `=>` behind it, so it is read
as an object first and seen anew when the mark comes. The text of the tree does not change: only
forms and roles do.
-/

namespace CompositeScript.Fragment.Tree

/-- A leaf that stands for a variable: a name, or the one constant that is no word of its own. -/
def standsForVariable (f : Form) (t : Text) : Bool :=
  f == .identifier || (f == .constant && t == "undefined")

/-- A target that an assignment takes as it stands. -/
def isReference (t : Tree) : Bool :=
  match t.form with
  | .member | .subscript | .parenthesized => true
  | f => standsForVariable f t.text

/-- A target that takes an initial value, which is no target itself. -/
def isInitialized (t : Tree) : Bool := t.form == .assignment

mutual

/-- A reference, perhaps in parentheses. -/
def isSimple : Tree → Bool
  | leaf _ f t => standsForVariable f t
  | node _ f ts =>
    match f with
    | .member | .subscript => true
    | .parenthesized => areSimple ts
    | _ => false

/-- The trees that are more than punctuation and blanks are references. -/
def areSimple : List Tree → Bool
  | [] => true
  | t :: ts => (!t.isNamed || t.form == .comment || isSimple t) && areSimple ts

end

mutual

/-- The pattern that an expression denotes as a target. A `binding` pattern holds names only, where
other targets may hold references such as `a.b`. -/
def asTarget (binding : Bool) : Tree → Option Tree
  | leaf r f t =>
    match f with
    | .blank | .comment | .token => some (leaf r f t)
    | .shorthand => some (leaf r .shorthandPattern t)
    | _ => if standsForVariable f t then some (leaf r f t) else none
  | node r f ts =>
    match f with
    | .object => (asTargets binding ts).map (node r .objectPattern)
    | .array => (asTargets binding ts).map (node r .arrayPattern)
    | .pair => (asTargets binding ts).map (node r .pairPattern)
    | .spread =>
      if ts.any isInitialized then none else (asTargets binding ts).map (node r .restPattern)
    | .coverInitializer => (asTargets binding ts).map (node r .objectAssignmentPattern)
    | .assignment => (asTargets binding ts).map (node r .assignmentPattern)
    | .objectPattern | .arrayPattern | .restPattern => some (node r f ts)
    | .member | .subscript => if binding then none else some (node r f ts)
    | .parenthesized => if binding || !areSimple ts then none else some (node r f ts)
    | _ => none

/-- The targets among the children of a node. Keys and initial values stay what they are. -/
def asTargets (binding : Bool) : List Tree → Option (List Tree)
  | [] => some []
  | t :: ts =>
    match if t.role == .key || t.role == .right then some t else asTarget binding t with
    | none => none
    | some u =>
      match asTargets binding ts with
      | none => none
      | some us => some (u :: us)

end

mutual

/-- The members of a sequence, or the tree itself. -/
def unsequenced : Tree → List Tree
  | node _ .sequence ts => unsequencedAll ts
  | t => [t]

/-- The members of the sequences among the trees, in order with the other trees. -/
def unsequencedAll : List Tree → List Tree
  | [] => []
  | t :: ts => unsequenced t ++ unsequencedAll ts

end

/-- The pattern that an expression denotes as a target of its own. Parentheses may hold anything
there, and an initial value makes no target. -/
def asWholeTarget (t : Tree) : Option Tree :=
  match t.form with
  | .parenthesized => some t
  | .assignment => none
  | _ => t.asTarget false

/-- The blanks and the arguments behind `async` in a call of it on one line, which is how the head
of an `async` arrow function is read. -/
def asyncParameters? : Tree → Option (List Tree × List Tree)
  | node _ .call (leaf _ .identifier t :: ts) =>
    match ts.getLast? with
    | some (node _ .arguments us) =>
      if t == "async" && ts.dropLast.all isBlank && !hasNewline ts.dropLast then
        some (ts.dropLast, us)
      else none
    | _ => none
  | _ => none

/-- The parameter list that a list in parentheses denotes. -/
def asParameters (ts : List Tree) : Option (List Tree) :=
  (asTargets true (unsequencedAll ts)).map fun us => [node .parameters .formalParameters us]

/-- What stands before an arrow: a name, or a parameter list, with `async` before it or without. -/
def asArrowHead (t : Tree) : Option (List Tree) :=
  match t with
  | leaf _ f s => if standsForVariable f s then some [leaf .parameter f s] else none
  | node _ .parenthesized ts => asParameters ts
  | node _ _ _ =>
    match t.asyncParameters? with
    | some (ts, us) =>
      (asTargets true us).map fun us =>
        leaf .plain .token "async" :: (ts ++ [node .parameters .formalParameters us])
    | none => none

/-- Joins an assignment or an arrow to the expression before it, which becomes its target or its
parameters. -/
def attach (base step : Tree) : Option Tree :=
  match step with
  | node r .assignment ts =>
    base.asWholeTarget.map fun b => node r .assignment (b.withRole .left :: ts)
  | node r .augmentedAssignment ts =>
    if base.isReference then some (node r .augmentedAssignment (base.withRole .left :: ts))
    else none
  | node r .arrowFunction ts => base.asArrowHead.map fun bs => node r .arrowFunction (bs ++ ts)
  | _ => none

/-- Joins a tree as the first child to the node after it. -/
def lead (r : Role) (base step : Tree) : Option Tree :=
  match step with
  | node q f ts => some (node q f (base.withRole r :: ts))
  | leaf _ _ _ => none

/-- Joins a tree as the first child to the node after it, unless it is such a node itself. -/
def leadOnce (r : Role) (base step : Tree) : Option Tree :=
  if base.form == step.form then none else lead r base step

/-- Joins a key as the first child to the property after it. -/
def leadKey : List Tree → Option (List Tree)
  | [key, node q f ts] => some [node q f (key.withRole .key :: ts)]
  | _ => none

/-- The parts of an attribute's name. Only those of a qualified name look like variables. -/
def asAttributeName : List Tree → Option (List Tree)
  | [leaf r _ t] => some [leaf r .propertyName t]
  | ts => some ts

/-- The variable that a declaration in the header of a loop declares, with its initial value. Only
`var` may give one. -/
def asIterated : List Tree → Option (List Tree)
  | [] => none
  | word :: ts =>
    match ts.getLast? with
    | some (node _ .variableDeclarator (name :: value)) =>
      if ts.dropLast.all isBlank && (value.isEmpty || word.text == "var") then
        some (word.withRole .declarator :: (ts.dropLast ++ name.withRole .left :: value))
      else none
    | _ => none

/-- A target that starts with `let`, and in a loop that does not wait the name `async`, is none
before `of`. -/
def isBarred (isAwaited : Bool) (target : Tree) (ts : List Tree) : Bool :=
  (ts.find? (·.form == .token)).any (·.text == Text.ofString "of") &&
    ((Lexeme.keyword "let" target.text).isSome || (!isAwaited && target.text == "async"))

/-- Joins the start of a loop to the value that the loop goes over. -/
def iterate (isAwaited : Bool) (base step : Tree) : Option Tree :=
  match base, step with
  | node _ .variableDeclaration ds, node r .forIn ts =>
    (asIterated ds).map fun ds => node r .forIn (ds ++ ts)
  | t, node r .forIn ts =>
    if t.isBarred isAwaited ts then none
    else t.asWholeTarget.map fun b => node r .forIn (b.withRole .left :: ts)
  | _, _ => none

end CompositeScript.Fragment.Tree
