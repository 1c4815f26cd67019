import CompositeScript.Fragment.Grammar
import CompositeScript.Fragment.Script

/-!
The parser of the grammar.

`parse` accepts the scripts of the language with markup elements. What the grammar cannot see, such
as a name declared twice, is not checked, and of a text that is no script nothing is made out.
-/

namespace CompositeScript.Fragment

/-- More symbols than can stand open in each other while one code point is read. -/
def symbolsPerPoint : Nat := 32

/-- The tree of a script, unless the text is none. -/
def parse (s : Text) : Option Tree :=
  match read grammar (symbolsPerPoint * (s.length + 1)) .program s with
  | .found _ [t] [] => if t.anyForm (· == .coverInitializer) then none else some t
  | _ => none

/-- The parser of the grammar. -/
def parser : Parser := fun s => (parse s).elim ⟨[], true⟩ fun t => ⟨t.children, false⟩

end CompositeScript.Fragment
