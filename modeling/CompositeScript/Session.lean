import CompositeScript.Generate

/-!
Sessions: a sequence of steps that change options and generate values with them.

The count of open calls is carried from step to step, and so are the current options and the saved
ones. Warnings and traces belong to the step that made them.
-/

namespace CompositeScript

/-- What one call came to: a result or a fault, with what was recorded on the way. -/
structure Outcome (α : Type) where
  result : Except Fault α
  warnings : List Text
  trace : List Record

/-- What a step of a run comes to, and the count of open calls it leaves behind. -/
def Gen.outcome {α : Type} (step : Gen α) (depth : Nat) : Outcome α × Nat :=
  let (result, run) := step.perform .standard { depth }
  (⟨result, run.warnings, run.trace⟩, run.depth)

/-- What a step comes to when no call is open. -/
def Gen.result {α : Type} (step : Gen α) : Outcome α := (step.outcome 0).1

/-- The state of a session. -/
structure Session where
  current : Options := {}
  saved : List (Text × Options) := []
  depth : Nat := 0

/-- A step of a session. -/
inductive Step
  | options (o : Options)
  | withHandlers (handlers : Handlers)
  | replace (maxDepth : Option Int) (policy : Option Text)
  | save (name : Text)
  | load (name : Text)
  | hooksFor (kind : Text)
  | generate (value : Value) (scope : Scope)

/-- The answer to a step. -/
inductive Answer
  /-- The names of handlers or of saved options. -/
  | names (names : List Text)
  /-- The bound on nesting and the policy. -/
  | settings (maxDepth : Int) (policy : Text)
  /-- How many hooks there are, if any. -/
  | hooks (count : Option Nat)
  /-- What generation came to. -/
  | generated (outcome : Outcome Text)
  /-- The step could not be taken. -/
  | refused (fault : Fault)

namespace Session

/-- The session with the current options saved under a name. -/
def store (s : Session) (name : Text) : Session :=
  { s with saved := s.saved.filter (·.1 ≠ name) ++ [(name, s.current)] }

/-- The session after a step, and the answer to it. -/
def step (s : Session) : Step → Session × Answer
  | .options o => ({ s with current := o }, .names o.handlers.names)
  | .withHandlers hs =>
    let o := s.current.withHandlers hs
    ({ s with current := o }, .names o.handlers.names)
  | .replace maxDepth policy =>
    let o := { s.current with
      maxDepth := maxDepth.getD s.current.maxDepth
      policy := policy.getD s.current.policy }
    ({ s with current := o }, .settings o.maxDepth o.policy)
  | .save name =>
    let s := s.store name
    (s, .names (Text.sort (s.saved.map Prod.fst)))
  | .load name =>
    match s.saved.find? (·.1 = name) with
    | none => (s, .refused .noKey)
    | some (_, o) => ({ s with current := o }, .names o.handlers.names)
  | .hooksFor kind => (s, .hooks ((s.current.hooksFor? kind).map List.length))
  | .generate v scope =>
    let (outcome, depth) := (CompositeScript.generate v scope s.current).outcome s.depth
    ({ s with depth }, .generated outcome)

/-- The answers to the steps, in order. -/
def run (s : Session) : List Step → List Answer
  | [] => []
  | x :: xs =>
    let (s, answer) := s.step x
    answer :: run s xs

end Session

end CompositeScript
