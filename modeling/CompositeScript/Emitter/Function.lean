import CompositeScript.Emitter.Expression
import CompositeScript.Fragment.Arrow
import CompositeScript.Fragment.Forward

/-!
Rendering of functions.

The text of a function decides its shape. A forwarding function is written as the arrow function
that forwards likewise. A function that refers to `arguments` keeps its form and is bound to `this`,
because an arrow function has no arguments object. Any other function becomes an arrow function.
-/

namespace CompositeScript.Function

/-- How a function is to be rendered. -/
inductive Mode
  /-- As it is written. -/
  | plain
  /-- Bound to `this`. -/
  | bound
  /-- As an arrow function. -/
  | arrow
  deriving DecidableEq, Repr

/-- The text of a function or an expression in a mode, given the parser of fragments. -/
def render (parser : Fragment.Parser) (mode : Mode) (v : Value) : Except Fault Text :=
  match Expression.codeOf .function .expression v with
  | .error f => .error f
  | .ok code =>
    match mode with
    | .plain => .ok code
    | .bound => .ok ("(" ++ code.strip ++ ").bind(this)")
    | .arrow => Fragment.toArrow parser code

/-- The text of a function in a mode, as the options have it. -/
def emitMode : Rendering → Mode → Value → Gen Text
  | .standard, mode, v => do Gen.ofExcept (render (← read).parser mode v)
  | .telling, mode, v => do
    let code ← Gen.shown (← Gen.field v "value")
    let mode : Text := match mode with
      | .plain => ""
      | .bound => "bound"
      | .arrow => "arrow"
    return "F(" ++ code ++ "|" ++ mode ++ ")"

/-- The shapes that the text of a function can have. -/
inductive Shape
  | forward | bound | arrow
  deriving DecidableEq, Repr

/-- The name of a shape. -/
def Shape.name : Shape → Text
  | forward => "legacy_forward"
  | bound => "bound"
  | arrow => "arrow"

/-- All shapes. -/
def Shape.all : List Shape := [forward, bound, arrow]

/-- The shape of a function, given the parser of fragments and what finds its free names. -/
def shapeOf (parser : Fragment.Parser) (finder : NameFinder) (code : Text) : Except Fault Shape :=
  if Fragment.isForward code then .ok .forward
  else
    (finder.find parser code).map fun names =>
      if names.contains "arguments" then .bound else .arrow

/-- The code in a field of a map, which has to be a text. -/
def codeField (v : Value) : Gen Text := do
  match ← Gen.field v "value" with
  | .str code => return code
  | _ => Gen.fail .wrongType

/-- The text of a function of a shape. -/
def emitShape (functions : Rendering) (shape : Shape) (v : Value) : Gen Text :=
  match shape with
  | .forward => do
    let code ← codeField v
    emitMode functions .plain (.tagged .function "value" (.str (Fragment.forwardArrow code)))
  | .bound => emitMode functions .bound v
  | .arrow => emitMode functions .arrow v

/-- The text of a function. -/
def emit (o : Options) (v : Value) : Gen Text :=
  match v.defect? with
  | some d => Gen.fail (.malformed v d)
  | none => do
    let code ← codeField v
    let shape ← Gen.ofExcept (shapeOf (← read).parser o.nameFinder code)
    emitShape o.functions shape v

end CompositeScript.Function
