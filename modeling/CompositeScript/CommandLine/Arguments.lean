import CompositeScript.Text

/-!
Options and operands on a command line.

An option starts with a dash. Its value follows behind an equals sign or as the next argument, which
may start with a dash itself. Options and operands may be mixed, `--` ends the options, and a dash
alone is an operand.
-/

namespace CompositeScript.CommandLine

/-- Whether an option has a value. -/
inductive OptionForm
  | flag | valued
  deriving DecidableEq, Repr

/-- The options of a command, by name. -/
abbrev OptionTable := List (Text × OptionForm)

/-- A command line taken apart. -/
structure Arguments where
  /-- The options given, the last one first; a flag has an empty value. -/
  options : List (Text × Text) := []
  operands : List Text := []
  deriving DecidableEq, Repr

namespace Arguments

/-- The value an option was given last. -/
def value? (a : Arguments) (name : Text) : Option Text :=
  (a.options.find? (·.1 = name)).map Prod.snd

/-- The arguments with one more option. -/
def withOption (a : Arguments) (name value : Text) : Arguments :=
  { a with options := (name, value) :: a.options }

/-- Takes arguments apart, added to what was found before them. Fails on an unknown option, on a
value given to a flag and on a value left out. -/
def gather (table : OptionTable) : List Text → Arguments → Option Arguments
  | [], found => some found
  | arg :: args, found =>
    if arg = "--" then some { found with operands := found.operands ++ args }
    else if arg.startsWith "-" && arg ≠ "-" then
      let name := arg.before '='
      match table.lookup name, arg.contains ('=' : CodePoint) with
      | none, _ | some .flag, true => none
      | some .flag, false => gather table args (found.withOption name "")
      | some .valued, true => gather table args (found.withOption name (arg.after '='))
      | some .valued, false =>
        match args with
        | [] => none
        | value :: args => gather table args (found.withOption name value)
    else gather table args { found with operands := found.operands ++ [arg] }

/-- The parts of a command line. -/
def parse (table : OptionTable) (args : List Text) : Option Arguments := gather table args {}

end Arguments

end CompositeScript.CommandLine
