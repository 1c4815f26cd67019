import CompositeScript.Value
import CompositeScript.Double.Shortest
import CompositeScript.Text.Quoted

/-!
The form of values that messages and traces show.
-/

namespace CompositeScript.Value

/-- What a value is called in a message that refuses it. -/
def typeName : Value → Text
  | undefined => "Undefined"
  | null => "NoneType"
  | bool _ => "bool"
  | int _ => "int"
  | float _ => "float"
  | str _ => "str"
  | list _ => "list"
  | tuple _ => "tuple"
  | set _ => "set"
  | bytes _ => "bytes"
  | range _ => "range"
  | map false _ => "dict"
  | map true _ => "mappingproxy"

mutual

/-- The form of a value that tells it apart from others: texts stand in quotes. -/
def display : Value → Text
  | undefined => "UNDEFINED"
  | null => "None"
  | bool true => "True"
  | bool false => "False"
  | int i => Text.ofInt i
  | float x => x.display
  | str t => t.quoted
  | list xs => "[" ++ Text.join ", " (displays xs) ++ "]"
  | tuple [x] => "(" ++ display x ++ ",)"
  | tuple xs => "(" ++ Text.join ", " (displays xs) ++ ")"
  | set none => "set()"
  | set (some x) => "\x7b" ++ display x ++ "\x7d"
  | bytes os => Text.quotedOctets os
  | range n => "range(0, " ++ Text.ofInt n ++ ")"
  | map false es => "\x7b" ++ Text.join ", " (displayEntries es) ++ "\x7d"
  | map true es => "mappingproxy(\x7b" ++ Text.join ", " (displayEntries es) ++ "\x7d)"

/-- The forms of the values, in order. -/
def displays : List Value → List Text
  | [] => []
  | x :: xs => display x :: displays xs

/-- The forms of the entries, in order. -/
def displayEntries : List (Value × Value) → List Text
  | [] => []
  | (k, v) :: es => (display k ++ ": " ++ display v) :: displayEntries es

end

/-- The form of a value inside a text: as displayed, but a text stands for itself. -/
def shown : Value → Text
  | str t => t
  | v => v.display

end CompositeScript.Value
