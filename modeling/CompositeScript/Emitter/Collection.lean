import CompositeScript.Emitter
import CompositeScript.Json.Writer

/-!
Emitters of arrays and objects.

What they hold goes back to the generator, so hooks see every level. An object with the `i18n` tag
is the call of a helper with the rest of the object: as code if it has parameters that may need
generating, else as a JSON literal.
-/

namespace CompositeScript.Collection

/-- The JSON text of a value. -/
def json (v : Value) : Gen Text := Gen.walk Json.render v

/-- The text of an array, or of what a walk over another value meets. -/
def array (generate : Emitter) : Emitter := fun v scope o =>
  match v.elements? with
  | none => Gen.fail .wrongType
  | some items => do
    let texts ← items.mapM fun item => generate item scope o
    return "[" ++ Text.join "," texts ++ "]"

/-- The entries without the `type` field. -/
def payload (es : Entries) : Entries := es.filter fun e => !e.1.isText "type"

/-- A value that may hold code. -/
def isContainer : Value → Bool
  | .map _ _ | .list _ | .tuple _ => true
  | _ => false

/-- The call that looks up a text in the language of the user. -/
def i18n (generate : Emitter) : Emitter := fun v scope o =>
  match v.entries? with
  | none => Gen.fail .noOperation
  | some es => do
    let rest := payload es
    let argument ←
      if (Value.lookup "params" rest).any isContainer then generate (.map false rest) scope o
      else json (.map false rest)
    return "this._i18nText(" ++ argument ++ ")"

/-- A member of an object: its key as a string, and its value. -/
def member (generate : Emitter) (scope : Scope) (o : Options) (entry : Value × Value) :
    Gen Text := do
  let key ← Gen.shown entry.1
  let value ← generate entry.2 scope o
  return Literal.string key ++ ": " ++ value

/-- The text of an object. -/
def object (generate : Emitter) : Emitter := fun v scope o =>
  if v.hasTag .i18n then i18n generate v scope o
  else
    match v.entries? with
    | none => Gen.fail .noOperation
    | some es => do
      let texts ← es.mapM (member generate scope o)
      return "\x7b" ++ Text.join ",\n" texts ++ "\x7d"

end CompositeScript.Collection
