import CompositeScript.Value
import CompositeScript.Double.Rounding

/-!
Reading JSON.

Numbers with a fraction or an exponent are doubles, others are integers of at most `Text.maxDigits`
digits; `NaN`, `Infinity` and `-Infinity` are numbers too. A repeated key keeps its first place and
takes the last value. Two escapes that make up a surrogate pair are read as one code point, and a
half that stands alone is kept.
-/

namespace CompositeScript.Json

/-- White space between the parts of a document. -/
def isSpace (c : CodePoint) : Bool := c = ' ' || c = '\t' || c = '\n' || c = '\r'

/-- The text from its first part on. -/
def skipSpace (s : Text) : Text := s.dropWhile isSpace

/-! ## Strings -/

/-- The code unit that four hexadecimal digits name. -/
def unit? : Text → Option CodePoint
  | a :: b :: c :: d :: _ =>
    match a.hexDigit?, b.hexDigit?, c.hexDigit?, d.hexDigit? with
    | some a, some b, some c, some d => some (.ofNat (((a * 16 + b) * 16 + c) * 16 + d))
    | _, _, _, _ => none
  | _ => none

/-- The code point of a surrogate pair. -/
def fuse (high low : CodePoint) : CodePoint :=
  .ofNat (0x10000 + (high.val - 0xD800) * 0x400 + (low.val - 0xDC00))

/-- The second half of a surrogate pair, if its escape is next. -/
def lowAhead? (s : Text) : Option CodePoint :=
  if s.startsWith "\\u" then (unit? (s.drop 2)).filter CodePoint.isLowSurrogate else none

/-- The code point that an escape stands for, and the length of the escape after its backslash. -/
def escape? : Text → Option (CodePoint × Nat)
  | [] => none
  | c :: s =>
    if c = '"' || c = '\\' || c = '/' then some (c, 1)
    else if c = 'b' then some ('\x08', 1)
    else if c = 'f' then some ('\x0c', 1)
    else if c = 'n' then some ('\n', 1)
    else if c = 'r' then some ('\r', 1)
    else if c = 't' then some ('\t', 1)
    else if c = 'u' then
      match unit? s with
      | none => none
      | some u =>
        match if u.isHighSurrogate then lowAhead? (s.drop 4) else none with
        | some low => some (fuse u low, 11)
        | none => some (u, 5)
    else none

/-- The rest of a string after its opening quote: the code points read so far in reverse, then
those up to the closing quote. The first `skip` code points belong to an escape. -/
def readChars : (skip : Nat) → (read : Text) → Text → Option (Text × Text)
  | _, _, [] => none
  | k + 1, read, _ :: s => readChars k read s
  | 0, read, c :: s =>
    if c = '"' then some (read.reverse, s)
    else if c = '\\' then
      match escape? s with
      | none => none
      | some (u, k) => readChars k (u :: read) s
    else if c.val < 0x20 then none
    else readChars 0 (c :: read) s

/-- A string, from its opening quote on. -/
def readString : Text → Option (Text × Text)
  | [] => none
  | c :: s => if c = '"' then readChars 0 [] s else none

/-! ## Numbers -/

/-- The digits at the front, and the rest. -/
def digits (s : Text) : Text × Text :=
  (s.takeWhile CodePoint.isDigit, s.dropWhile CodePoint.isDigit)

/-- The whole part of a number: a zero, or digits that start with none. -/
def wholePart (s : Text) : Option (Text × Text) :=
  match s with
  | [] => none
  | c :: rest => if c = '0' then some ([c], rest) else if c.isDigit then some (digits s) else none

/-- The fraction of a number, if a point with digits behind it is next. -/
def fractionPart (s : Text) : Option (Text × Text) :=
  match s with
  | [] => none
  | c :: rest => if c = '.' && !(digits rest).1.isEmpty then some (digits rest) else none

/-- The exponent of a number, if it is next with its digits. -/
def exponentPart (s : Text) : Option (Int × Text) :=
  match s with
  | [] => none
  | c :: rest =>
    let negative := Text.startsWith rest "-"
    let unsigned := if negative || Text.startsWith rest "+" then rest.drop 1 else rest
    let (ds, rest) := digits unsigned
    if (c = 'e' || c = 'E') && !ds.isEmpty then
      some (if negative then -(Text.toNat ds : Int) else Text.toNat ds, rest)
    else none

/-- A number without its sign. -/
def readSize (negative : Bool) (s : Text) : Option (Value × Text) :=
  match wholePart s with
  | none => none
  | some (whole, s) =>
    match fractionPart s, exponentPart ((fractionPart s).elim s Prod.snd) with
    | none, none =>
      let n : Int := Text.toNat whole
      some (.int (if negative then -n else n), s)
    | fraction, exponent =>
      let places := fraction.elim [] Prod.fst
      let rest := exponent.elim (fraction.elim s Prod.snd) Prod.snd
      let scale := exponent.elim 0 Prod.fst - places.length
      some (.float (Double.ofDecimal negative (Text.toNat (whole ++ places)) scale), rest)

/-- A number. -/
def readNumber (s : Text) : Option (Value × Text) :=
  if s.startsWith "-" then readSize true (s.drop 1) else readSize false s

/-! ## Documents -/

/-- The words of the format. -/
def readWord (s : Text) : Option (Value × Text) :=
  if s.startsWith "null" then some (.null, s.drop 4)
  else if s.startsWith "true" then some (.bool true, s.drop 4)
  else if s.startsWith "false" then some (.bool false, s.drop 5)
  else if s.startsWith "NaN" then some (.float .nan, s.drop 3)
  else if s.startsWith "Infinity" then some (.float (.infinity false), s.drop 8)
  else if s.startsWith "-Infinity" then some (.float (.infinity true), s.drop 9)
  else none

/-- Why a text is refused. -/
inductive Refusal
  /-- It is no document. -/
  | malformed
  /-- It is none up to an integer with too many digits, if it is one at all. -/
  | tooLong
  deriving DecidableEq, Repr

/-- Reads a value off the front of a text. -/
abbrev ValueReader := Text → Except Refusal (Value × Text)

/-- The items of a list up to its closing bracket, given those read so far in reverse. -/
def readItems (value : ValueReader) : (bound : Nat) → List Value → Text →
    Except Refusal (List Value × Text)
  | 0, _, _ => .error .malformed
  | n + 1, items, s =>
    match value (skipSpace s) with
    | .error refusal => .error refusal
    | .ok (v, s) =>
      match skipSpace s with
      | [] => .error .malformed
      | c :: s =>
        if c = ',' then readItems value n (v :: items) s
        else if c = ']' then .ok ((v :: items).reverse, s)
        else .error .malformed

/-- The members of a map up to its closing brace, added to the entries read so far. -/
def readMembers (value : ValueReader) : (bound : Nat) → Entries → Text →
    Except Refusal (Entries × Text)
  | 0, _, _ => .error .malformed
  | n + 1, entries, s =>
    match readString (skipSpace s) with
    | none => .error .malformed
    | some (key, s) =>
      match skipSpace s with
      | [] => .error .malformed
      | colon :: s =>
        match if colon = ':' then value (skipSpace s) else .error .malformed with
        | .error refusal => .error refusal
        | .ok (v, s) =>
          match skipSpace s with
          | [] => .error .malformed
          | c :: s =>
            let entries := Value.insert (.str key) v entries
            if c = ',' then readMembers value n entries s
            else if c = '\x7d' then .ok (entries, s)
            else .error .malformed

/-- A scalar: a number or a word of the format. -/
def readScalar (s : Text) : Except Refusal (Value × Text) :=
  match readNumber s with
  | some (v, rest) => if v.digits ≤ Text.maxDigits then .ok (v, rest) else .error .tooLong
  | none =>
    match readWord s with
    | none => .error .malformed
    | some r => .ok r

/-- A value, in which at most `depth` values stand in each other. -/
def readValue : (depth : Nat) → ValueReader
  | 0, _ => .error .malformed
  | n + 1, s =>
    if s.startsWith "\"" then
      match readString s with
      | none => .error .malformed
      | some (t, s) => .ok (.str t, s)
    else if s.startsWith "[" then
      let s := skipSpace (s.drop 1)
      if s.startsWith "]" then .ok (.list [], s.drop 1)
      else (readItems (readValue n) s.length [] s).map fun (xs, s) => (.list xs, s)
    else if s.startsWith "\x7b" then
      let s := skipSpace (s.drop 1)
      if s.startsWith "\x7d" then .ok (.map false [], s.drop 1)
      else (readMembers (readValue n) s.length [] s).map fun (es, s) => (.map false es, s)
    else readScalar s

/-- The value of a whole document, or why there is none. -/
def document (t : Text) : Except Refusal Value :=
  let s := skipSpace t
  match readValue (s.length + 1) s with
  | .error refusal => .error refusal
  | .ok (v, rest) => if (skipSpace rest).isEmpty then .ok v else .error .malformed

/-- The value of a whole document. -/
def read (t : Text) : Option Value := (document t).toOption

end CompositeScript.Json
