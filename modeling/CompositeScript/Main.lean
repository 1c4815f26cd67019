import CompositeScript.CommandLine

/-!
The command line program.
-/

open CompositeScript

/-- The text of a source: the standard input for a dash, else a file. -/
def readSource (source : Text) : IO (Option Text) := do
  match source.toString? with
  | none => return none
  | some name =>
    try
      let content ← if name = "-" then (← IO.getStdin).readToEnd else IO.FS.readFile name
      return some (Text.ofString content)
    catch _ => return none

/-- Runs a command and answers its status. -/
def main (args : List String) : IO UInt32 := do
  let ending ← match CommandLine.parse (args.map Text.ofString) with
    | none => pure (.ok CommandLine.Reply.usage)
    | some command => do
      let document ← match command.source? with
        | none => pure none
        | some source => readSource source
      pure (command.answer document)
  match ending with
  | .error _ =>
    IO.eprintln "The program stopped with a fault"
    return 1
  | .ok reply =>
    if !reply.complaint.isEmpty then IO.eprintln (reply.complaint.toString?.getD "")
    IO.print (reply.output.toString?.getD "")
    return reply.status.toUInt32
