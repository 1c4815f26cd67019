import CompositeScript.CommandLine
import CompositeScript.CommandLine.Arguments
import CompositeScript.Decimal
import CompositeScript.Double
import CompositeScript.Double.Reading
import CompositeScript.Double.Rounding
import CompositeScript.Double.Shortest
import CompositeScript.Emitter
import CompositeScript.Emitter.Collection
import CompositeScript.Emitter.Expression
import CompositeScript.Emitter.Function
import CompositeScript.Emitter.Slot
import CompositeScript.Fault
import CompositeScript.Fragment.Arrow
import CompositeScript.Fragment.Forward
import CompositeScript.Fragment.FreeNames
import CompositeScript.Fragment.Gap
import CompositeScript.Fragment.Grammar
import CompositeScript.Fragment.Grammar.Basic
import CompositeScript.Fragment.Grammar.Element
import CompositeScript.Fragment.Grammar.Expression
import CompositeScript.Fragment.Grammar.Function
import CompositeScript.Fragment.Grammar.Pattern
import CompositeScript.Fragment.Grammar.Statement
import CompositeScript.Fragment.Lexeme
import CompositeScript.Fragment.Parse
import CompositeScript.Fragment.Rule
import CompositeScript.Fragment.Script
import CompositeScript.Fragment.Target
import CompositeScript.Fragment.Tree
import CompositeScript.Gen
import CompositeScript.Generate
import CompositeScript.Hook
import CompositeScript.Json.Plain
import CompositeScript.Json.Reader
import CompositeScript.Json.Writer
import CompositeScript.Kind
import CompositeScript.Literal
import CompositeScript.Machine
import CompositeScript.Main
import CompositeScript.Options
import CompositeScript.Proofs.Arguments
import CompositeScript.Proofs.ArrowForm
import CompositeScript.Proofs.ArrowNames
import CompositeScript.Proofs.Code
import CompositeScript.Proofs.Escapes
import CompositeScript.Proofs.Forwarding
import CompositeScript.Proofs.Fragment.Closing
import CompositeScript.Proofs.Fragment.Conversion
import CompositeScript.Proofs.Fragment.Fuel
import CompositeScript.Proofs.Fragment.Functions
import CompositeScript.Proofs.Fragment.Gaps
import CompositeScript.Proofs.Fragment.Lexemes
import CompositeScript.Proofs.Fragment.LocalGrammar
import CompositeScript.Proofs.Fragment.Locality
import CompositeScript.Proofs.Fragment.Occurrences
import CompositeScript.Proofs.Fragment.Operands
import CompositeScript.Proofs.Fragment.ParameterLists
import CompositeScript.Proofs.Fragment.Parsers
import CompositeScript.Proofs.Fragment.Reading
import CompositeScript.Proofs.Fragment.Scripts
import CompositeScript.Proofs.Fragment.Trees
import CompositeScript.Proofs.Fragment.Wrapped
import CompositeScript.Proofs.Hooks
import CompositeScript.Proofs.IdleHooks
import CompositeScript.Proofs.Json.Documents
import CompositeScript.Proofs.Json.Literals
import CompositeScript.Proofs.Json.NormalForm
import CompositeScript.Proofs.Json.Spelling
import CompositeScript.Proofs.Json.Strings
import CompositeScript.Proofs.LargerDepth
import CompositeScript.Proofs.Migration
import CompositeScript.Proofs.NameScan
import CompositeScript.Proofs.Nodes
import CompositeScript.Proofs.NumberLiterals
import CompositeScript.Proofs.Offences
import CompositeScript.Proofs.PassThrough
import CompositeScript.Proofs.Policy
import CompositeScript.Proofs.Quiet
import CompositeScript.Proofs.RoundTrip
import CompositeScript.Proofs.Run
import CompositeScript.Proofs.Scopes
import CompositeScript.Proofs.Serialisers
import CompositeScript.Proofs.Sessions
import CompositeScript.Proofs.Simulation
import CompositeScript.Proofs.SlotTitles
import CompositeScript.Proofs.Termination
import CompositeScript.Proofs.Text
import CompositeScript.Proofs.Tracing
import CompositeScript.Proofs.Unescaped
import CompositeScript.Proofs.WellFormed
import CompositeScript.Session
import CompositeScript.Tag
import CompositeScript.Text
import CompositeScript.Text.Blank
import CompositeScript.Text.Numeral
import CompositeScript.Text.Printable
import CompositeScript.Text.Quoted
import CompositeScript.Value
import CompositeScript.Value.Display
