import CompositeScript.Value

/-!
Tagged maps: the shapes a map takes by its `type` field.

An expression, a function, a data source and a variable each need one field with a text in it; a
`Defect` says which of them lacks it.
-/

namespace CompositeScript

/-- The tags that mean more than a plain map. -/
inductive Tag
  | expression | function | slot | dataSource | variableRef | i18n
  deriving DecidableEq, Repr

namespace Tag

/-- The text that marks a map with the tag. -/
def name : Tag → Text
  | expression => "JSExpression"
  | function => "JSFunction"
  | slot => "JSSlot"
  | dataSource => "DataSource"
  | variableRef => "variable"
  | i18n => "i18n"

/-- The field that a map with the tag has to have, as a text. -/
def requiredField? : Tag → Option Text
  | expression | function => some "value"
  | dataSource => some "id"
  | variableRef => some "variable"
  | slot | i18n => none

/-- All tags. -/
def all : List Tag := [expression, function, slot, dataSource, variableRef, i18n]

end Tag

/-- What a tagged map lacks. -/
inductive Defect
  | missing (tag : Tag) (field : Text)
  | notText (tag : Tag) (field : Text)
  deriving DecidableEq, Repr

/-- The defect in words. -/
def Defect.message : Defect → Text
  | missing tag field => tag.name ++ " requires `" ++ field ++ "`"
  | notText tag field => tag.name ++ "." ++ field ++ " must be str"

namespace Value

/-- The text in the `type` field of a map. -/
def tagName? (v : Value) : Option Text :=
  match v.get? "type" with
  | some (str t) => some t
  | _ => none

/-- The value is a map with the tag. -/
def hasTag (tag : Tag) (v : Value) : Bool := v.tagName? == some tag.name

/-- The tag of a map. -/
def tag? (v : Value) : Option Tag := Tag.all.find? fun tag => v.hasTag tag

/-- What a tagged map lacks. -/
def defect? (v : Value) : Option Defect :=
  match v.tag? with
  | none => none
  | some tag =>
    match tag.requiredField? with
    | none => none
    | some field =>
      match v.get? field with
      | none => some (.missing tag field)
      | some (str _) => none
      | some _ => some (.notText tag field)

/-- A map with a tag and one more field. -/
def tagged (tag : Tag) (field : Text) (value : Value) : Value :=
  map false [(str "type", str tag.name), (str field, value)]

end Value

end CompositeScript
