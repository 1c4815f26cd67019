import CompositeScript.CommandLine.Arguments
import CompositeScript.Text.Numeral
import CompositeScript.Json.Reader
import CompositeScript.Session

/-!
The commands: generate the code of a JSON document, tell the kind of its value, tell the version.

A document is named by its source, a dash standing for the standard input. The status is 0 for a
text, 1 for a document that cannot be read or that the generator complains of, and 2 for arguments
that make no command. Any other fault ends the program without a status of its own.
-/

namespace CompositeScript.CommandLine

/-- A command with its arguments. -/
inductive Command
  | generate (source : Text) (maxDepth : Int) (strictSlots : Bool)
  | classify (source : Text)
  | version
  deriving DecidableEq, Repr

/-- The only operand, if there is exactly one. -/
def onlyOperand? (a : Arguments) : Option Text :=
  match a.operands with
  | [source] => some source
  | _ => none

/-- The options of the command that generates. -/
def generateOptions : OptionTable := [("--max-depth", .valued), ("--strict-slots", .flag)]

/-- The command that generates, from the arguments behind its name. -/
def parseGenerate (args : List Text) : Option Command := do
  let a ← Arguments.parse generateOptions args
  let source ← onlyOperand? a
  let maxDepth ← (a.value? "--max-depth").elim (some 128) Numeral.integer?
  return .generate source maxDepth (a.value? "--strict-slots").isSome

/-- The command that arguments make up. -/
def parse (args : List Text) : Option Command :=
  match if args.head? = some (Text.ofString "--") then args.drop 1 else args with
  | [] => none
  | name :: args =>
    if name = "generate" then parseGenerate args
    else if name = "classify" then
      ((Arguments.parse [] args).bind onlyOperand?).map Command.classify
    else if name = "version" then
      (Arguments.parse [] args).bind fun a => if a.operands.isEmpty then some .version else none
    else none

/-- The source of the document that a command is about. -/
def Command.source? : Command → Option Text
  | generate source _ _ | classify source => some source
  | version => none

/-- What a command answers. -/
structure Reply where
  status : Nat
  output : Text
  complaint : Text
  deriving DecidableEq, Repr

namespace Reply

/-- A text as a line. -/
def print (t : Text) : Reply := ⟨0, t ++ "\n", []⟩

/-- The arguments make no command. -/
def usage : Reply := ⟨2, [], "Usage: (generate | classify | version) ..."⟩

/-- The words for what went wrong. -/
def complain (words : Text) : Reply := ⟨1, [], words⟩

end Reply

/-- How a command ends: with a reply, or by a fault that nothing catches. -/
abbrev Ending := Except Fault Reply

namespace Ending

/-- A fault of the generator's own is put in words. -/
def ofFault (f : Fault) : Ending :=
  match f.family? with
  | some _ => .ok (.complain (f.message?.getD []))
  | none => .error f

/-- A text or a fault. -/
def ofExcept : Except Fault Text → Ending
  | .ok t => .ok (.print t)
  | .error f => ofFault f

end Ending

/-- The value of a document, or how the command that reads it ends. -/
def readDocument (document : Option Text) : Except Ending Value :=
  match document.map Json.document with
  | none => .error (.ok (.complain "Cannot read the document"))
  | some (.error .malformed) => .error (.ok (.complain "Invalid JSON"))
  | some (.error .tooLong) => .error (.error .tooLong)
  | some (.ok v) =>
    if v.nesting ≤ Machine.standard.nesting then .ok v else .error (.error .tooDeep)

/-- The version of the program. -/
def version : Text := "0.1.0"

/-- How a command ends, given the document it is about. -/
def Command.answer (document : Option Text) : Command → Ending
  | generate _ maxDepth strictSlots =>
    match readDocument document with
    | .error ending => ending
    | .ok v =>
      let policy : Text := if strictSlots then "fail" else "degrade"
      .ofExcept (CompositeScript.generate v .null { maxDepth, policy }).result.result
  | classify _ =>
    match readDocument document with
    | .error ending => ending
    | .ok v => .ofExcept (Gen.ofExcept (v.classify.map Kind.name)).result.result
  | Command.version => .ok (.print CommandLine.version)

/-- How the program ends with its arguments, given what the sources hold. -/
def run (args : List Text) (document : Text → Option Text) : Ending :=
  match parse args with
  | none => .ok .usage
  | some command => command.answer (command.source?.bind document)

end CompositeScript.CommandLine
