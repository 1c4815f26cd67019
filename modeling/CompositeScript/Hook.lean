import CompositeScript.Value

/-!
Hooks as data.

A hook stands between the generator and the emitter of a kind. It sees the value, the scope and the
options on their way to the emitter and the text on its way back. The hooks of a kind form a stack,
of which the first is the outermost. What each of the hooks does is said where the generator is.
-/

namespace CompositeScript

/-- The hooks registered for a kind: none, a single one, or several as a list or a tuple. -/
inductive HookStack (η : Type)
  | absent
  | single (hook : η)
  | list (hooks : List η)
  | tuple (hooks : List η)
  deriving Repr

namespace HookStack

variable {η : Type}

/-- The hooks of a stack, the outermost first. -/
def toList : HookStack η → List η
  | absent => []
  | single h => [h]
  | list hs | tuple hs => hs

/-- The stack with `f` applied to its hooks. -/
def map {θ : Type} (f : η → θ) : HookStack η → HookStack θ
  | absent => absent
  | single h => single (f h)
  | list hs => list (hs.map f)
  | tuple hs => tuple (hs.map f)

end HookStack

/-- What a hook can do. -/
inductive Hook
  /-- Goes on unchanged. -/
  | pass
  /-- Goes on, and puts the text in parentheses behind a label. -/
  | tag (label : Text)
  /-- Answers a text without going on. -/
  | constant (text : Text)
  /-- Goes on, and adds a text at the end. -/
  | suffix (text : Text)
  /-- Goes on twice, and joins the two texts with a bar. -/
  | twice
  /-- Goes on with another value. -/
  | value (value : Value)
  /-- Goes on with a text added at the front of the value, which has to be a text. -/
  | prepend (text : Text)
  /-- Goes on with another scope. -/
  | scope (scope : Value)
  /-- Goes on with another bound on nesting. -/
  | maxDepth (n : Int)
  /-- Goes on with further handlers, which replace those of the same kinds. -/
  | handlers (handlers : List (Text × HookStack Hook))
  /-- Generates another value instead of going on. -/
  | regenerate (value : Value)
  /-- Generates the same value again instead of going on. -/
  | again
  /-- Goes on, and answers the family of a fault of the generator. -/
  | rescue
  /-- Gives up. -/
  | raise (text : Text)
  /-- Records the value and the scope, and goes on. -/
  | trace (label : Text)

/-- The hook stacks by the names they are registered under. -/
abbrev Handlers := List (Text × HookStack Hook)

namespace Handlers

/-- The handlers with one stack more, in the place of the one under that name if there is one. -/
def set (name : Text) (stack : HookStack Hook) : Handlers → Handlers
  | [] => [(name, stack)]
  | (n, s) :: hs => if n = name then (n, stack) :: hs else (n, s) :: set name stack hs

/-- The handlers with others merged over them. -/
def merge (handlers others : Handlers) : Handlers :=
  others.foldl (fun hs h => set h.1 h.2 hs) handlers

/-- The stack under a name. -/
def get? (handlers : Handlers) (name : Text) : Option (HookStack Hook) :=
  (handlers.find? (·.1 = name)).map Prod.snd

/-- The names in increasing order. -/
def names (handlers : Handlers) : List Text := Text.sort (handlers.map Prod.fst)

end Handlers

end CompositeScript
