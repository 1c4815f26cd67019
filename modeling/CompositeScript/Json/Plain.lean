import CompositeScript.Value.Display

/-!
Values as plain data.

Plain data is what can be written as JSON: maps have text keys, lists are lists, and nothing is
undefined. An undefined member of a map is left out, an undefined item of a list becomes `null`, and
keys that are shown alike become one key, which keeps its first place and its last value.
-/

namespace CompositeScript.Value

/-- The value is `undefined`. -/
def isUndefined : Value → Bool
  | undefined => true
  | _ => false

mutual

/-- The value as plain data. A set stays what it is, and so does `undefined` itself. -/
def plain : Value → Value
  | map _ es => map false (entriesOf (plainEntries es))
  | list xs | tuple xs => list (plainItems xs)
  | bytes os => list (os.map fun o => int o.toNat)
  | range n => list ((List.range n.toNat).map fun (i : Nat) => int i)
  | v => v

/-- The items as plain data. -/
def plainItems : List Value → List Value
  | [] => []
  | x :: xs => (if x.isUndefined then null else plain x) :: plainItems xs

/-- The defined members as plain data, under the texts of their keys. -/
def plainEntries : List (Value × Value) → List (Value × Value)
  | [] => []
  | (k, v) :: es =>
    if v.isUndefined then plainEntries es else (str k.shown, plain v) :: plainEntries es

end

end CompositeScript.Value
