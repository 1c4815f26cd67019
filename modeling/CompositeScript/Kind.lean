import CompositeScript.Fault

/-!
The kinds of composite values.

Every composite value is of exactly one kind, which decides how it is emitted and which hooks run.
Tagged maps are told apart before plain ones, and a tagged map with a defect is of no kind.
-/

namespace CompositeScript

/-- The kinds of composite values. Variables and data sources stand for expressions. -/
inductive Kind
  | undefined | null | array | variableRef | expression | function | slot | dataSource | object
  | string | number | boolean
  deriving DecidableEq, Repr

/-- The name of a kind, under which its hooks are registered. -/
def Kind.name : Kind → Text
  | undefined => "undefined"
  | null => "null"
  | array => "array"
  | variableRef => "variable"
  | expression => "expression"
  | function => "function"
  | slot => "slot"
  | dataSource => "data_source"
  | object => "object"
  | string => "string"
  | number => "number"
  | boolean => "boolean"

/-- The kind of the maps with a tag. -/
def Tag.kind : Tag → Kind
  | expression => .expression
  | function => .function
  | slot => .slot
  | dataSource => .dataSource
  | variableRef => .variableRef
  | i18n => .object

namespace Value

/-- The kind of a composite value. -/
def classify (v : Value) : Except Fault Kind :=
  match v with
  | undefined => .ok .undefined
  | null => .ok .null
  | list _ | tuple _ => .ok .array
  | map _ _ =>
    match v.defect? with
    | some d => .error (.malformed v d)
    | none => .ok (v.tag?.elim .object Tag.kind)
  | str _ => .ok .string
  | int _ | float _ => .ok .number
  | bool _ => .ok .boolean
  | set _ | bytes _ | range _ => .error (.unclassified v)

end Value

end CompositeScript
