import CompositeScript.Text

/-!
Lexemes of JavaScript: how many code points the token at the front of a text takes.

Every function answers a length, or nothing where no such token starts. Names, numbers, strings,
regular expressions and template characters follow the lexical grammar of the language, escapes
included, so a malformed escape or an unfinished literal is no token.
-/

namespace CompositeScript.Fragment.Lexeme

/-- White space between tokens, as ranges in increasing order. -/
def spaceRanges : List (Nat × Nat) :=
  [(0x09, 0x0D), (0x20, 0x20), (0x85, 0x85), (0xA0, 0xA0), (0x1680, 0x1680), (0x2000, 0x200B),
    (0x2028, 0x2029), (0x202F, 0x202F), (0x205F, 0x2060), (0x3000, 0x3000), (0xFEFF, 0xFEFF)]

/-- The code points below U+0080 that are part of no name: controls, white space, quotes,
brackets and operators. -/
def punctuationRanges : List (Nat × Nat) :=
  [(0x00, 0x23), (0x25, 0x2F), (0x3A, 0x40), (0x5B, 0x5E), (0x60, 0x60), (0x7B, 0x7E)]

/-- White space between tokens. -/
def isSpace (c : CodePoint) : Bool := c.within spaceRanges

/-- The end of a line. -/
def isNewline (c : CodePoint) : Bool :=
  c.val == 0x0A || c.val == 0x0D || c.val == 0x2028 || c.val == 0x2029

/-- A code point that may stand in a name. -/
def isNamePart (c : CodePoint) : Bool := !c.within punctuationRanges && !isSpace c

/-- A code point that may start a name. -/
def isNameStart (c : CodePoint) : Bool := isNamePart c && !c.isDigit

/-- `n` unless it is zero. -/
def positive (n : Nat) : Option Nat := if n = 0 then none else some n

/-- The text starts with a code point that `p` accepts. -/
def starts (p : CodePoint → Bool) (s : Text) : Bool := s.head?.any p

/-- A run of white space. -/
def spaces (s : Text) : Option Nat := positive (s.takeWhile isSpace).length

/-- The length up to and with the first `*/`, after `n` code points. -/
def blockCommentEnd (n : Nat) : Text → Option Nat
  | [] => none
  | c :: s => if c = '*' && starts (· = '/') s then some (n + 2) else blockCommentEnd (n + 1) s

/-- The length up to the end of the line. -/
def lineEnd (s : Text) : Nat := (s.takeWhile fun c => !isNewline c).length

/-! ## Names -/

/-- The length of a Unicode escape after its backslash. -/
def unicodeEscape (s : Text) : Option Nat :=
  if s.startsWith "u\x7b" then
    let digits := (s.drop 2).takeWhile CodePoint.isHexDigit
    if !digits.isEmpty && starts (· = '\x7d') (s.drop (digits.length + 2)) then
      some (digits.length + 3)
    else none
  else if starts (· = 'u') s then
    let digits := (s.drop 1).take 4
    if digits.length = 4 && digits.all CodePoint.isHexDigit then some 5 else none
  else none

/-- The length of the name at the front, after `n` code points of it; the first `skip` code points
belong to an escape. -/
def nameEnd : (skip n : Nat) → Text → Nat
  | _, n, [] => n
  | k + 1, n, _ :: s => nameEnd k (n + 1) s
  | 0, n, c :: s =>
    if isNamePart c then nameEnd 0 (n + 1) s
    else if c = '\\' then
      match unicodeEscape s with
      | some k => nameEnd k (n + 1) s
      | none => n
    else n

/-- A word: a name or a reserved word. -/
def word (s : Text) : Option Nat :=
  if starts CodePoint.isDigit s then none else positive (nameEnd 0 0 s)

/-- The words that are no names. -/
def reserved : List Text :=
  List.map Text.ofString
    ["break", "case", "catch", "class", "const", "continue", "debugger", "default", "delete", "do",
      "else", "enum", "export", "extends", "false", "finally", "for", "function", "if", "import",
      "in", "instanceof", "new", "null", "return", "super", "switch", "this", "throw", "true",
      "try", "typeof", "undefined", "var", "void", "while", "with"]

/-- A name: a word that is not reserved. -/
def name (s : Text) : Option Nat :=
  (word s).filter fun n => !reserved.contains (s.take n)

/-- The word `w` and no longer one. -/
def keyword (w s : Text) : Option Nat :=
  if s.startsWith w then (word s).filter (· == w.length) else none

/-- A name that is given to what is declared. `undefined` can be declared like a name, although it
never refers to a variable. -/
def ownName (s : Text) : Option Nat :=
  match name s with
  | some n => some n
  | none => keyword "undefined" s

/-- A private name, with its mark. -/
def privateName (s : Text) : Option Nat :=
  if starts (· = '#') s then (word (s.drop 1)).map (· + 1) else none

/-! ## Punctuation -/

/-- The mark `p`, not followed by any of `stops`. -/
def mark (p stops s : Text) : Option Nat :=
  if s.startsWith p && !starts stops.contains (s.drop p.length) then some p.length else none

/-- The first of the marks that stands at the front, each with what must not follow it. -/
def firstMark : List (Text × Text) → Text → Option Nat
  | [], _ => none
  | (p, stops) :: ms, s =>
    match mark p stops s with
    | some n => some n
    | none => firstMark ms s

/-- Marks, each with the code points that must not follow it. -/
def marks (ms : List (String × String)) : List (Text × Text) := ms.map fun m => (m.1, m.2)

/-- The operators between two operands. None of them is the front of an assignment operator. -/
def binaryMarks : List (Text × Text) :=
  marks [("===", ""), ("==", ""), ("!==", ""), ("!=", ""), ("&&", "="), ("||", "="), ("??", "="),
    (">>>", "="), (">>", ">="), (">=", ""), (">", ">="), ("<<", "="), ("<=", ""), ("<", "<="),
    ("**", "="), ("*", "*="), ("+", "+="), ("-", "-="), ("/", "/*="), ("%", "="), ("&", "&="),
    ("|", "|="), ("^", "=")]

/-- An operator between two operands; `in` only where it is allowed. The mark of a comment is
none. -/
def binaryOperator (allowIn : Bool) (s : Text) : Option Nat :=
  if s.startsWith "<!--" then none
  else
    match firstMark binaryMarks s with
    | some n => some n
    | none =>
      match keyword "instanceof" s with
      | some n => some n
      | none => if allowIn then keyword "in" s else none

/-- The operators that assign a combined value. -/
def augmentedMarks : List (Text × Text) :=
  marks [("+=", ""), ("-=", ""), ("*=", ""), ("/=", ""), ("%=", ""), ("**=", ""), ("<<=", ""),
    (">>=", ""), (">>>=", ""), ("&=", ""), ("|=", ""), ("^=", ""), ("&&=", ""), ("||=", ""),
    ("??=", "")]

/-- An operator that assigns a combined value. -/
def augmentedOperator (s : Text) : Option Nat := firstMark augmentedMarks s

/-- The operators before an operand that are no words. -/
def unaryMarks : List (Text × Text) := marks [("!", ""), ("~", ""), ("-", "-"), ("+", "+")]

/-- An operator before its operand. -/
def unaryOperator (s : Text) : Option Nat :=
  match firstMark unaryMarks s with
  | some n => some n
  | none =>
    match keyword "typeof" s with
    | some n => some n
    | none =>
      match keyword "void" s with
      | some n => some n
      | none => keyword "delete" s

/-- An optional chain's mark; before a digit it is a conditional and a number. -/
def chainMark (s : Text) : Option Nat := mark "?." "0123456789" s

/-- The mark of a conditional. -/
def questionMark (s : Text) : Option Nat :=
  if (chainMark s).isSome then none else mark "?" "?" s

/-! ## Literals -/

/-- The length of a character escape after its backslash. The further digits of an octal escape
are read as characters of their own. -/
def escape (s : Text) : Option Nat :=
  match s with
  | [] => none
  | c :: rest =>
    if c = 'x' then
      if (rest.take 2).length = 2 && (rest.take 2).all CodePoint.isHexDigit then some 3 else none
    else if c = 'u' then unicodeEscape s
    else if c = '\r' && starts (· = '\n') rest then some 2
    else some 1

/-- The length of a string literal up to and with the closing quote, after `n` code points; the
first `skip` code points belong to an escape. -/
def stringEnd (quote : CodePoint) : (skip n : Nat) → Text → Option Nat
  | _, _, [] => none
  | k + 1, n, _ :: s => stringEnd quote k (n + 1) s
  | 0, n, c :: s =>
    if c = quote then some (n + 1)
    else if c = '\\' then
      match escape s with
      | some k => stringEnd quote k (n + 1) s
      | none => none
    else if c = '\n' || c = '\r' then none
    else stringEnd quote 0 (n + 1) s

/-- A quote of either kind. -/
def isQuote (c : CodePoint) : Bool := c = '"' || c = '\x27'

/-- A string literal in quotes of either kind. -/
def string (s : Text) : Option Nat :=
  match s with
  | [] => none
  | q :: rest => if isQuote q then stringEnd q 0 1 rest else none

/-- The length of the template characters at the front, after `n` code points of them; the first
`skip` code points belong to an escape. -/
def charactersEnd : (skip n : Nat) → Text → Nat
  | _, n, [] => n
  | k + 1, n, _ :: s => charactersEnd k (n + 1) s
  | 0, n, c :: s =>
    if c = '\x60' then n
    else if c = '$' && starts (· = '\x7b') s then n
    else if c = '\\' then
      match escape s with
      | some k => charactersEnd k (n + 1) s
      | none => n
    else charactersEnd 0 (n + 1) s

/-- The mark `opening` and the characters of a template behind it, up to the end of the template or
its next substitution. -/
def charactersAfter (opening : CodePoint) (s : Text) : Option Nat :=
  if starts (· = opening) s then some (charactersEnd 0 1 (s.drop 1)) else none

/-- The length of a regular expression up to and with the closing slash, after `n` code points;
`inClass` inside a character class, `escaped` after a backslash. -/
def regexEnd : (inClass escaped : Bool) → (n : Nat) → Text → Option Nat
  | _, _, _, [] => none
  | inClass, escaped, n, c :: s =>
    if isNewline c then none
    else if escaped then regexEnd inClass false (n + 1) s
    else if c = '\\' then regexEnd inClass true (n + 1) s
    else if c = '[' then regexEnd true false (n + 1) s
    else if c = ']' then regexEnd false false (n + 1) s
    else if c = '/' && !inClass then some (n + 1)
    else regexEnd inClass false (n + 1) s

/-- A lower-case letter of ASCII, such as may be a flag of a regular expression. -/
def isFlag (c : CodePoint) : Bool := 0x61 ≤ c.val && c.val ≤ 0x7A

/-- A regular expression with its flags. No name or digit follows it directly. -/
def regex (s : Text) : Option Nat :=
  match mark "/" "/*" s with
  | none => none
  | some _ =>
    match regexEnd false false 1 (s.drop 1) with
    | none => none
    | some n =>
      let flags := ((s.drop n).takeWhile isFlag).length
      if starts (fun c => isNamePart c || c = '\\') (s.drop (n + flags)) then none
      else some (n + flags)

/-- The length of the digits at the front, after `n` code points of them. An underscore may stand
between two digits. -/
def digitsEnd (isDigit : CodePoint → Bool) : (afterDigit : Bool) → (n : Nat) → Text → Nat
  | _, n, [] => n
  | afterDigit, n, c :: s =>
    if isDigit c then digitsEnd isDigit true (n + 1) s
    else if c = '_' && afterDigit && starts isDigit s then digitsEnd isDigit false (n + 1) s
    else n

/-- A digit of a number to the base of eight. -/
def isOctalDigit (c : CodePoint) : Bool := 0x30 ≤ c.val && c.val ≤ 0x37

/-- The digits that may follow the base mark of a number. -/
def baseDigits (c : CodePoint) : Option (CodePoint → Bool) :=
  if c = 'x' || c = 'X' then some CodePoint.isHexDigit
  else if c = 'o' || c = 'O' then some isOctalDigit
  else if c = 'b' || c = 'B' then some fun c => 0x30 ≤ c.val && c.val ≤ 0x31
  else none

/-- The length of the digits of an exponent with their sign, or zero. -/
def signedEnd (s : Text) : Nat :=
  let sign := if starts (fun c => c = '+' || c = '-') s then 1 else 0
  let digits := digitsEnd CodePoint.isDigit false 0 (s.drop sign)
  if digits = 0 then 0 else sign + digits

/-- The length of an exponent, or zero. -/
def exponentEnd (s : Text) : Nat :=
  if starts (fun c => c = 'e' || c = 'E') s && 0 < signedEnd (s.drop 1) then
    1 + signedEnd (s.drop 1)
  else 0

/-- The length of a fraction with its point, or zero. -/
def fractionEnd (s : Text) : Nat :=
  if starts (· = '.') s then digitsEnd CodePoint.isDigit false 1 (s.drop 1) else 0

/-- The length of a number to the base of eight that a leading zero alone marks, or zero. -/
def legacyOctalEnd (s : Text) : Nat :=
  let octal := (s.takeWhile isOctalDigit).length
  let digits := digitsEnd CodePoint.isDigit false 0 s
  if starts (· = '0') s && 1 < octal && octal = digits then octal else 0

/-- The length of a decimal number, or zero. -/
def decimalEnd (s : Text) : Nat :=
  let whole := digitsEnd CodePoint.isDigit false 0 s
  let rest := s.drop whole
  if 0 < whole && starts (· = 'n') rest then whole + 1
  else if whole = 0 && fractionEnd rest ≤ 1 then 0
  else whole + fractionEnd rest + exponentEnd (rest.drop (fractionEnd rest))

/-- The length of a number with a base mark, or zero. -/
def markedNumberEnd (s : Text) : Nat :=
  match s with
  | zero :: base :: rest =>
    match if zero = '0' then baseDigits base else none with
    | none => 0
    | some isDigit =>
      let digits := digitsEnd isDigit false 0 rest
      if digits = 0 then 0
      else if starts (· = 'n') (rest.drop digits) then digits + 3
      else digits + 2
  | _ => 0

/-- The length of a number in any of its forms, or zero. -/
def numberEnd (s : Text) : Nat :=
  if 0 < markedNumberEnd s then markedNumberEnd s
  else if 0 < legacyOctalEnd s then legacyOctalEnd s
  else decimalEnd s

/-- A number. No name or digit follows it directly. -/
def number (s : Text) : Option Nat :=
  if starts (fun c => isNamePart c || c = '\\') (s.drop (numberEnd s)) then none
  else positive (numberEnd s)

/-! ## Elements -/

/-- A name of an element or of an attribute, which may hold hyphens and no escapes. -/
def elementWord (s : Text) : Option Nat :=
  if starts isNameStart s then
    let n := (s.takeWhile fun c => isNamePart c || c = '-').length
    if starts (· = '\\') (s.drop n) then none else some n
  else none

/-- The mark `opening` and the text of an element behind it, up to the next tag or expression. -/
def textAfter (opening : CodePoint) (s : Text) : Option Nat :=
  if starts (· = opening) s then
    some (((s.drop 1).takeWhile fun c : CodePoint =>
      c ≠ '\x7b' && c ≠ '\x7d' && c ≠ '<' && c ≠ '>').length + 1)
  else none

/-- The quoted value of an attribute, which knows no escapes. -/
def attributeString (s : Text) : Option Nat :=
  match s with
  | [] => none
  | q :: rest =>
    if isQuote q then
      let n := (rest.takeWhile (· ≠ q)).length
      if n < rest.length then some (n + 2) else none
    else none

end CompositeScript.Fragment.Lexeme
