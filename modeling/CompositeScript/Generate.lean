import CompositeScript.Kind
import CompositeScript.Emitter.Collection
import CompositeScript.Emitter.Function
import CompositeScript.Emitter.Slot

/-!
Generation of JavaScript from composite values.

`generate` finds the kind of a value, runs the hooks registered for the kind, and leaves the rest to
the emitter of the kind. Variables and data sources are emitted as the expressions they stand for.
Arrays, objects, hooks and node generators may call the generator again; every such call counts
against the bound on nesting of its options.
-/

namespace CompositeScript

/-- The text of a node, as a node generator has it. -/
def NodeGenerator.render (generate : Emitter) : NodeGenerator → Slot.NodeRenderer
  | component, node, _ => do
    let name ← Gen.shown (← Gen.field node "componentName")
    return "<" ++ name ++ " />"
  | telling, node, scope => do
    let node ← Gen.display node
    let scope ← Gen.display scope
    return "N(" ++ node ++ "|" ++ scope ++ ")"
  | .generate settings, node, scope => generate node scope (Options.ofSettings settings)

/-- The text of a slot. Without a node generator the policy decides. -/
def Slot.emit (generate : Emitter) : Emitter := fun v scope o =>
  match o.nodes with
  | some nodes => Slot.emitWith o.slots (nodes.render generate) v scope
  | none => do
    if o.policy = "fail" then Gen.fail .noNodeGenerator
    Gen.warn Slot.skipWarning
    return []

/-- What a hook does, given the generator. -/
def Hook.act (generate : Emitter) (hook : Hook) : HookAction := fun v scope o next =>
  match hook with
  | pass => next v scope o
  | tag label => return label ++ "(" ++ (← next v scope o) ++ ")"
  | constant text => return text
  | suffix text => return (← next v scope o) ++ text
  | twice => do
    let first ← next v scope o
    let second ← next v scope o
    return first ++ "|" ++ second
  | value w => next w scope o
  | prepend text =>
    match v with
    | .str t => next (.str (text ++ t)) scope o
    | _ => Gen.fail .wrongType
  | Hook.scope other => next v other o
  | maxDepth n => next v scope { o with maxDepth := n }
  | handlers hs => next v scope (o.withHandlers hs)
  | regenerate w => generate w scope o
  | again => generate v scope o
  | rescue => tryCatch (next v scope o) fun f =>
    match f.family? with
    | some family => return "caught " ++ family.name
    | none => throw f
  | raise text => Gen.fail (.hookFailure text)
  | trace label => do
    let value ← Gen.display v
    let shown ← Gen.display scope
    Gen.record ⟨label, value, shown⟩
    next v scope o

/-- The literal of a number. An integer is written out, the other numbers are short. -/
def emitNumber (v : Value) : Gen Text :=
  match v with
  | .int _ => Gen.walk Literal.numberOf v
  | _ => Gen.ofExcept (Literal.numberOf v)

/-- The emitter of a kind, given the generator. -/
def Kind.emit (generate : Emitter) (kind : Kind) : Emitter := fun v scope o =>
  match kind with
  | undefined => return "undefined"
  | null => return "null"
  | array => Collection.array generate v scope o
  | expression | variableRef | dataSource => Expression.emit o.expressions v scope
  | function => Function.emit o v
  | slot => Slot.emit generate v scope o
  | object => Collection.object generate v scope o
  | string => Gen.ofExcept (Literal.stringOf v)
  | number => emitNumber v
  | boolean => return Literal.booleanOf v

/-- The emitter of a kind, with the hooks around it that the options register for the kind. -/
def Kind.dispatch (generate : Emitter) (kind : Kind) : Emitter := fun v scope o =>
  match o.hooksFor? kind.name with
  | none => kind.emit generate v scope o
  | some hooks => runHooks (hooks.map (Hook.act generate)) (kind.emit generate) v scope o

/-- The expression that reads a data source. -/
def dataSourceCode (id : Text) : Text := "this.dataSourceMap[" ++ Json.string id ++ "]"

/-- The kind to emit a value as, and the value to emit: a variable and a data source stand for
expressions. -/
def desugar (kind : Kind) (v : Value) : Kind × Value :=
  match kind, v.get? "variable", v.get? "id" with
  | .variableRef, some code, _ => (.expression, Expression.ofCode code)
  | .dataSource, _, some (.str id) => (.expression, Expression.ofCode (.str (dataSourceCode id)))
  | kind, _, _ => (kind, v)

/-- The text of a value, given the generator for what it holds. -/
def route (generate : Emitter) : Emitter := fun v scope o => do
  let (kind, v) := desugar (← Gen.ofExcept v.classify) v
  kind.dispatch generate v scope o

/-- The text of a value, with so many calls of the generator at most open in each other. -/
def generateWithin : (calls : Nat) → Emitter
  | 0, _, _, _ => throw .tooDeep
  | n + 1, v, scope, o => Gen.nested o.maxDepth (route (generateWithin n) v scope o)

/-- The text of a value in a scope. -/
def generate : Emitter := fun v scope o => do generateWithin (← read).calls v scope o

end CompositeScript
