import CompositeScript.Gen
import CompositeScript.Options

/-!
Emitters and the hooks around them.

An emitter makes a text of a value in a scope. A hook gets the emitter behind it and decides
whether, how often and with what it is called. Running a stack of hooks around an emitter gives an
emitter again.
-/

namespace CompositeScript

/-- Names known where a value is used. The generator only hands it on. -/
abbrev Scope := Value

/-- Makes a text of a value. -/
abbrev Emitter := Value → Scope → Options → Gen Text

/-- What a hook does with a value, a scope, options and the emitter behind it. -/
abbrev HookAction := Value → Scope → Options → Emitter → Gen Text

/-- The emitter that runs the hooks, the first of them outermost, around an emitter. -/
def runHooks : List HookAction → Emitter → Emitter
  | [], emit, v, scope, o => emit v scope o
  | hook :: hooks, emit, v, scope, o => hook v scope o (runHooks hooks emit)

/-- The emitter that runs the hooks of a stack around an emitter. -/
def HookStack.run (stack : HookStack HookAction) (emit : Emitter) : Emitter :=
  runHooks stack.toList emit

/-- The emitter that only tells what it was given. -/
def tellingEmitter : Emitter := fun v scope o => do
  let value ← Gen.shown v
  let scope ← Gen.display scope
  return "<" ++ value ++ "|" ++ scope ++ "|" ++ Text.ofInt o.maxDepth ++ ">"

end CompositeScript
