import CompositeScript.Machine

/-!
Runs of the generator.

A run counts the calls that are open, and collects warnings and what tracing hooks record. All of it
survives a fault: what a failed run recorded is still there, and the count is back to where it was.
-/

namespace CompositeScript

/-- What keeps the machine from writing a value out, if anything does. -/
def Machine.obstacle? (machine : Machine) (v : Value) : Option Fault :=
  if machine.nesting < v.nesting then some .tooDeep
  else if machine.digits < v.digits then some .tooLong
  else none

/-- The fault that comes of giving up with one. A fault whose words would have to show a value that
cannot be written out is never told. -/
def Fault.told (machine : Machine) (f : Fault) : Fault :=
  (f.subject?.bind machine.obstacle?).getD f

/-- What a tracing hook recorded: its label, and the value and scope it was given. -/
structure Record where
  label : Text
  value : Text
  scope : Text
  deriving DecidableEq, Repr

/-- The state of a run. -/
structure Run where
  /-- How many calls of the generator are open. -/
  depth : Nat := 0
  warnings : List Text := []
  trace : List Record := []
  deriving DecidableEq, Repr

/-- A step of a run. -/
abbrev Gen := ReaderT Machine (ExceptT Fault (StateM Run))

namespace Gen

variable {α : Type}

/-- What a step answers and leaves behind. -/
def perform (step : Gen α) (machine : Machine) (run : Run) : Except Fault α × Run :=
  (step.run machine).run.run run

/-- Fails. -/
def fail (f : Fault) : Gen α := do throw (f.told (← read))

/-- The result of a calculation, or its fault. -/
def ofExcept : Except Fault α → Gen α
  | .ok a => pure a
  | .error f => fail f

/-- What `f` makes of a value that is walked to its ends. -/
def walk (f : Value → Except Fault α) (v : Value) : Gen α := do
  match (← read).obstacle? v with
  | some obstacle => throw obstacle
  | none => ofExcept (f v)

/-- The displayed form of a value. -/
def display (v : Value) : Gen Text := walk (fun v => .ok v.display) v

/-- The form of a value inside a text. -/
def shown (v : Value) : Gen Text := walk (fun v => .ok v.shown) v

/-- Adds a warning. -/
def warn (t : Text) : Gen Unit := modify fun run => { run with warnings := run.warnings ++ [t] }

/-- Adds a record to the trace. -/
def record (r : Record) : Gen Unit := modify fun run => { run with trace := run.trace ++ [r] }

/-- The text of a field of a map, in a value that may be no map. -/
def field (v : Value) (name : Text) : Gen Value :=
  match v.entries? with
  | none => fail .wrongType
  | some es =>
    match Value.lookup name es with
    | none => fail .noKey
    | some x => pure x

/-- Runs a step inside one more open call, if `maxDepth` allows one. The count is back to where it
was afterwards, whatever happens. The outermost call turns what the machine could not follow into a
fault of its own. -/
def nested (maxDepth : Int) (step : Gen α) : Gen α := fun machine run =>
  if maxDepth < run.depth + 1 then (.error (.depthExceeded maxDepth), run)
  else
    let (answer, after) := step machine { run with depth := run.depth + 1 }
    let after := { after with depth := run.depth }
    match answer with
    | .error .tooDeep =>
      (.error (if run.depth = 0 then .depthExceeded maxDepth else .tooDeep), after)
    | answer => (answer, after)

end Gen

end CompositeScript
