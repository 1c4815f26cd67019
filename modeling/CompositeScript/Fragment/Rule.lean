import CompositeScript.Fragment.Gap

/-!
Rules that read trees from a text.

A grammar gives every symbol one rule, and `Rule.run` reads by a rule. The rule is `absent` from the
text, or it is `found`, or the text is `broken`: it starts as the rule wants but goes wrong. Choices
are ordered, and a later alternative is tried only where the earlier ones are absent. Some tokens
are firm: what follows one of them is never read in another way, so a rule that stops behind a firm
token leaves the text broken. Only names, keywords, commas and gaps are ever read twice.

A leaf is read by a function that says how many code points it takes, so the text of a leaf is a
slice of the input whatever that function is, and a run splits its input into the text of its trees
and the rest.
-/

namespace CompositeScript.Fragment

/-- A kind of token. -/
structure Lexeme where
  /-- The text starts like a token of the kind. -/
  opens : Text → Bool
  /-- The length of the token at the front of a text. -/
  length : Text → Option Nat
  /-- What starts with such a token is never read in another way. -/
  isFirm : Bool

namespace Lexeme

/-- Tokens that start only where they also end. -/
def plain (length : Text → Option Nat) (isFirm : Bool) : Lexeme :=
  ⟨fun s => (length s).isSome, length, isFirm⟩

end Lexeme

/-- How a piece of text is read, over the symbols of a grammar. -/
inductive Rule (σ : Type)
  /-- Reads nothing, and always can. -/
  | done
  /-- Reads a token as a leaf. -/
  | leaf (form : Form) (lexeme : Lexeme)
  /-- Reads the blanks and comments up to the next token, if `accept` takes them. -/
  | blanks (accept : List Tree → Bool)
  /-- Reads by the rule of a symbol. -/
  | ref (symbol : σ)
  /-- Reads by `first`, then by `second`. -/
  | seq (first second : Rule σ)
  /-- Reads by `first` if it can, otherwise by `second`. -/
  | alt (first second : Rule σ)
  /-- Reads by `item` as often as it can. -/
  | many (item : Rule σ)
  /-- Reads nothing, if `rule` could not read on. -/
  | refuse (rule : Rule σ)
  /-- Reads by `rule` and sees what was read in another way, if `view` has one for it. -/
  | adapt (view : List Tree → Option (List Tree)) (rule : Rule σ)
  /-- Reads one tree by `base` and joins what `step` reads behind it, as often as both succeed. -/
  | grow (join : Tree → Tree → Option Tree) (base : Rule σ) (step : Tree → Rule σ)

/-- What reading at the front of a text comes to. -/
inductive Reading
  /-- Nothing of the kind stands there. -/
  | absent
  /-- Something of the kind starts there and goes wrong. -/
  | broken
  /-- The trees that stand there, whether a firm token is among them, and the rest of the text. -/
  | found (isFirm : Bool) (trees : List Tree) (rest : Text)

/-- Reads at the front of a text. -/
abbrev Reader := Text → Reading

namespace Reading

/-- Nothing more stands there: the text is broken if a firm token was read already. -/
def stopped (isFirm : Bool) : Reading := if isFirm then broken else absent

/-- The reading behind the trees `ts`, which were read before it. -/
def behind (isFirm : Bool) (ts : List Tree) : Reading → Reading
  | found firm us rest => found (isFirm || firm) (ts ++ us) rest
  | broken => broken
  | absent => stopped isFirm

/-- Goes on with `next` behind what was found. -/
def andThen (r : Reading) (next : Reader) : Reading :=
  match r with
  | found firm ts rest => (next rest).behind firm ts
  | r => r

/-- The trees, seen in another way if `view` has one for them. -/
def adapt (view : List Tree → Option (List Tree)) : Reading → Reading
  | found firm ts rest =>
    match view ts with
    | some us => found firm us rest
    | none => stopped firm
  | r => r

end Reading

/-- Reads by `read` until it is absent, fewer than `bound` times. -/
def repeated (read : Reader) : (bound : Nat) → Reader
  | 0, _ => .broken
  | n + 1, s =>
    match read s with
    | .absent => .found false [] s
    | .broken => .broken
    | .found firm ts rest => (repeated read n rest).behind firm ts

/-- Joins to `base` what `read` reads, until it is absent or does not join, fewer than `bound`
times. -/
def grown (join : Tree → Tree → Option Tree) (read : Tree → Reader) :
    (bound : Nat) → (base : Tree) → Reader
  | 0, _, _ => .broken
  | n + 1, base, s =>
    match read base s with
    | .absent => .found false [base] s
    | .found firm [step] rest =>
      match join base step with
      | some base => (grown join read n base rest).behind firm []
      | none => if firm then .broken else .found false [base] s
    | _ => .broken

namespace Rule

variable {σ : Type}

/-- Reads by a rule, `call` reading the symbols. No repetition goes on as often as `bound`
times. -/
def run (bound : Nat) (call : σ → Reader) : Rule σ → Reader
  | done, s => .found false [] s
  | leaf f l, s =>
    if l.opens s then
      match l.length s with
      | none => .broken
      | some n => .found l.isFirm [.leaf .plain f (s.take n)] (s.drop n)
    else .absent
  | blanks accept, s =>
    match gap? s with
    | none => .broken
    | some (ts, rest) => if accept ts then .found false ts rest else .absent
  | ref x, s => call x s
  | seq a b, s => (run bound call a s).andThen (run bound call b)
  | alt a b, s =>
    match run bound call a s with
    | .absent => run bound call b s
    | r => r
  | many a, s => repeated (run bound call a) bound s
  | refuse a, s =>
    match run bound call a s with
    | .absent => .found false [] s
    | .broken => .broken
    | .found _ _ _ => .absent
  | adapt view a, s => (run bound call a s).adapt view
  | grow join a b, s =>
    match run bound call a s with
    | .found firm [base] rest =>
      (grown join (fun t => run bound call (b t)) bound base rest).behind firm []
    | .absent => .absent
    | _ => .broken

/-- Reads the children of a node. -/
def node (f : Form) (parts : Rule σ) : Rule σ := adapt (fun ts => some [.node .plain f ts]) parts

/-- Reads by the rule and puts what was read into a role. -/
def role (q : Role) (r : Rule σ) : Rule σ := adapt (fun ts => some (ts.map (Tree.withRole q))) r

/-- Reads by all the rules, one after the other. -/
def all : List (Rule σ) → Rule σ
  | [] => done
  | [r] => r
  | r :: rs => seq r (all rs)

/-- Reads by the first of the rules that can. -/
def any : List (Rule σ) → Rule σ
  | [] => refuse done
  | [r] => r
  | r :: rs => alt r (any rs)

/-- Reads by the rule if it can. -/
def optional (r : Rule σ) : Rule σ := alt r done

/-- Reads by the rule, if what was read is acceptable. -/
def test (accept : List Tree → Bool) (r : Rule σ) : Rule σ :=
  adapt (fun ts => if accept ts then some ts else none) r

/-- Reads nothing, if the rule could read on. -/
def ahead (r : Rule σ) : Rule σ := refuse (refuse r)

end Rule

/-- Reads by the rules of a grammar, where fewer than `fuel` symbols may stand open in each
other. -/
def read {σ : Type} (grammar : σ → Rule σ) : (fuel : Nat) → σ → Reader
  | 0, _, _ => .broken
  | n + 1, x, s => (grammar x).run n (read grammar n) s

end CompositeScript.Fragment
