import CompositeScript.Hook
import CompositeScript.Fragment.FreeNames

/-!
Options of the generator.

Besides the hooks and the bound on nesting, the options name the collaborators: what renders
expressions, functions and slots, what finds the free names of a fragment, and what renders the
nodes in a slot. A node generator that calls the generator again does so with the settings it was
made with, whatever became of the options since.
-/

namespace CompositeScript

/-- How expressions, functions or slots are rendered: as they should be, or so that the text tells
what was asked for. -/
inductive Rendering
  | standard
  | telling
  deriving DecidableEq, Repr

/-- How the free names of a fragment are found. -/
inductive NameFinder
  /-- By reading the fragment. -/
  | scan
  /-- The same names for every fragment. -/
  | fixed (names : List Text)
  deriving DecidableEq, Repr

/-- The names free in a fragment, given the parser of fragments. -/
def NameFinder.find (parser : Fragment.Parser) : NameFinder → Text → Except Fault (List Text)
  | scan, code => Fragment.freeNames parser code
  | fixed names, _ => .ok names

/-- The options but for the node generator. -/
structure Settings where
  handlers : Handlers := []
  /-- What a slot does without a node generator: `fail` makes it a fault, and with any other text
  the slot is skipped with a warning. -/
  policy : Text := "degrade"
  /-- How many calls of the generator may be open in each other. -/
  maxDepth : Int := 128
  expressions : Rendering := .standard
  functions : Rendering := .standard
  slots : Rendering := .standard
  nameFinder : NameFinder := .scan

/-- What renders a node of a slot. -/
inductive NodeGenerator
  /-- As an empty element with the name of the node's component. -/
  | component
  /-- So that the text shows the node and the scope. -/
  | telling
  /-- By the generator, with settings of its own and itself as the node generator. -/
  | generate (settings : Settings)

/-- The options of the generator. -/
structure Options extends Settings where
  nodes : Option NodeGenerator := none

namespace Options

/-- The options a node generator with settings of its own hands to the generator. -/
def ofSettings (settings : Settings) : Options :=
  { settings with nodes := some (.generate settings) }

/-- The options with handlers merged over theirs. -/
def withHandlers (o : Options) (handlers : Handlers) : Options :=
  { o with handlers := o.handlers.merge handlers }

/-- The hooks registered under a name, if there are any. -/
def hooksFor? (o : Options) (name : Text) : Option (List Hook) :=
  match (o.handlers.get? name).elim [] HookStack.toList with
  | [] => none
  | hooks => some hooks

end Options

end CompositeScript
