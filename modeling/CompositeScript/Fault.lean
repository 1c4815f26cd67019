import CompositeScript.Tag
import CompositeScript.Value.Display

/-!
The ways in which generation fails, as causes, with the wording of those that have one.

The faults of the generator itself can be caught by a hook. The others are misuses that the value at
hand does not allow, such as walking over a number, and come without words.
-/

namespace CompositeScript

/-- Why generation failed. -/
inductive Fault
  /-- The value is no composite value. -/
  | unclassified (value : Value)
  /-- A tagged map lacks what its tag needs. -/
  | malformed (value : Value) (defect : Defect)
  /-- Another value stands where an expression, a function or a slot is needed. -/
  | notTagged (tag : Tag) (value : Value)
  /-- The value nests more deeply than the options allow. -/
  | depthExceeded (maxDepth : Int)
  /-- A slot was met, and nothing that renders its nodes. -/
  | noNodeGenerator
  /-- A hook gave up. -/
  | hookFailure (text : Text)
  /-- The value is of a type that does not allow what was tried. -/
  | wrongType
  /-- The value has no such operation. -/
  | noOperation
  /-- The map has no such key. -/
  | noKey
  /-- The text has no UTF-8 form. -/
  | notEncodable
  /-- The call or the value nests more deeply than the machine can follow. -/
  | tooDeep
  /-- The integer has more digits than the machine writes or reads. -/
  | tooLong
  deriving Repr

/-- The families of the generator's own faults. -/
inductive Family
  | codegen | classification | depth | nodeGenerator
  deriving DecidableEq, Repr

/-- The name of a family. -/
def Family.name : Family → Text
  | codegen => "CodegenError"
  | classification => "ClassificationError"
  | depth => "DepthExceededError"
  | nodeGenerator => "MissingNodeGeneratorError"

namespace Fault

/-- The family of one of the generator's own faults. -/
def family? : Fault → Option Family
  | unclassified _ | malformed _ _ => some .classification
  | notTagged _ _ => some .codegen
  | depthExceeded _ => some .depth
  | noNodeGenerator => some .nodeGenerator
  | _ => none

/-- The value that the words of the fault show. -/
def subject? : Fault → Option Value
  | unclassified v | malformed v _ | notTagged _ v => some v
  | _ => none

/-- The fault in words. -/
def message? : Fault → Option Text
  | unclassified v =>
    some ("Unknown composite value kind: " ++ v.typeName ++ " (" ++ v.display ++ ")")
  | malformed v d =>
    some ("Malformed composite value: " ++ d.message ++ " (" ++ v.display ++ ")")
  | notTagged tag v => some ("Not a " ++ tag.name ++ ": " ++ v.display)
  | depthExceeded n => some ("Composite value nesting exceeds max depth of " ++ Text.ofInt n)
  | noNodeGenerator =>
    some ("Cannot generate JSSlot content without a node generator " ++
      "(set GenerationOptions.node_generator)")
  | hookFailure t => some t
  | wrongType | noOperation | noKey | notEncodable | tooDeep | tooLong => none

end Fault

end CompositeScript
