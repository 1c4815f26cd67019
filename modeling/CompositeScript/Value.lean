import CompositeScript.Double

/-!
Composite values: the data a designer stores for the properties of a component.

The schema knows `undefined`, `null`, booleans, numbers, texts, lists, tuples and maps. Sets, octets
and ranges are no composite values, but a caller can hand them in, so they are values here and are
refused where they are met. A map keeps its entries in the order of their first insertion, and its
keys may be any value; fields are looked up by text keys.
-/

namespace CompositeScript

/-- A value as it is handed to the generator. -/
inductive Value
  | undefined
  | null
  | bool (b : Bool)
  | int (i : Int)
  | float (x : Double)
  | str (t : Text)
  | list (items : List Value)
  | tuple (items : List Value)
  /-- A set of at most one item. -/
  | set (item : Option Value)
  | bytes (octets : List UInt8)
  /-- The whole numbers from zero up to and without `stop`. -/
  | range (stop : Int)
  /-- A map, or a read-only view of one. -/
  | map (readOnly : Bool) (entries : List (Value × Value))
  deriving Repr

/-- The entries of a map, in order. -/
abbrev Entries := List (Value × Value)

namespace Value

/-! ## Keys -/

/-- The number that a boolean, an integer or a double stands for as a key. -/
def number? : Value → Option (Int ⊕ Double)
  | bool b => some (.inl b.toNat)
  | int i => some (.inl i)
  | float x => some (.inr x)
  | _ => none

/-- Equality of numbers across integers and doubles. -/
def sameNumber : Int ⊕ Double → Int ⊕ Double → Bool
  | .inl i, .inl j => i == j
  | .inl i, .inr x | .inr x, .inl i => x.toInt? == some i
  | .inr x, .inr y => x.sameNumber y

mutual

/-- The two values are the same key of a map. Numbers are compared by value, so `1`, `1.0` and
`true` are one key. -/
def sameKey : Value → Value → Bool
  | undefined, undefined | null, null => true
  | str s, str t => s == t
  | tuple xs, tuple ys => sameKeys xs ys
  | bytes s, bytes t => s == t
  | range m, range n => m.toNat == n.toNat
  | x, y =>
    match x.number?, y.number? with
    | some m, some n => sameNumber m n
    | _, _ => false

/-- The two lists hold the same keys in the same order. -/
def sameKeys : List Value → List Value → Bool
  | [], [] => true
  | x :: xs, y :: ys => sameKey x y && sameKeys xs ys
  | _, _ => false

end

/-- The entries with one more: a key that is there keeps its place and takes the new value. -/
def insert (key value : Value) : Entries → Entries
  | [] => [(key, value)]
  | (k, v) :: es => if sameKey k key then (k, value) :: es else (k, v) :: insert key value es

/-- The entries that a list of insertions leaves behind. -/
def entriesOf (insertions : Entries) : Entries :=
  insertions.foldl (fun es e => insert e.1 e.2 es) []

/-! ## Access -/

/-- The entries of a map. -/
def entries? : Value → Option Entries
  | map _ es => some es
  | _ => none

/-- The key is the given text. -/
def isText (t : Text) : Value → Bool
  | str s => s == t
  | _ => false

/-- The value that the entries give to a text key. -/
def lookup (field : Text) (es : Entries) : Option Value :=
  (es.find? fun e => e.1.isText field).map Prod.snd

/-- The value of a field of a map. -/
def get? (v : Value) (field : Text) : Option Value := v.entries?.bind (lookup field)

/-- The items of a list-like value. -/
def items? : Value → Option (List Value)
  | list xs | tuple xs => some xs
  | bytes os => some (os.map fun o => int o.toNat)
  | range n => some ((List.range n.toNat).map fun (i : Nat) => int i)
  | _ => none

/-- What a walk over the value meets: the items of a list-like value or set, the characters of a
text, the keys of a map. -/
def elements? : Value → Option (List Value)
  | str t => some (t.map fun c => str [c])
  | set item => some item.toList
  | map _ es => some (es.map Prod.fst)
  | v => v.items?

/-- The value counts as true: it is neither zero nor empty nor nothing. -/
def isTruthy : Value → Bool
  | undefined | null => false
  | bool b => b
  | int i => i != 0
  | float x => !x.isZero
  | str t => !t.isEmpty
  | list xs | tuple xs => !xs.isEmpty
  | set item => item.isSome
  | bytes os => !os.isEmpty
  | range n => 0 < n
  | map _ es => !es.isEmpty

/-! ## Nesting -/

mutual

/-- How many values stand in each other, at most: one for a value that holds no other. -/
def nesting : Value → Nat
  | list xs | tuple xs => nestings xs + 1
  | set (some x) => nesting x + 1
  | map _ es => entryNestings es + 1
  | _ => 1

/-- The deepest nesting among the values. -/
def nestings : List Value → Nat
  | [] => 0
  | x :: xs => max (nesting x) (nestings xs)

/-- The deepest nesting among the keys and values. -/
def entryNestings : List (Value × Value) → Nat
  | [] => 0
  | (k, v) :: es => max (max (nesting k) (nesting v)) (entryNestings es)

end

/-! ## Numerals -/

mutual

/-- How many digits the longest integer in the value has: none if there is no integer. -/
def digits : Value → Nat
  | int i | range i => (Text.ofNat i.natAbs).length
  | list xs | tuple xs => itemDigits xs
  | set (some x) => digits x
  | map _ es => entryDigits es
  | _ => 0

/-- The most digits of an integer among the values. -/
def itemDigits : List Value → Nat
  | [] => 0
  | x :: xs => max (digits x) (itemDigits xs)

/-- The most digits of an integer among the keys and values. -/
def entryDigits : List (Value × Value) → Nat
  | [] => 0
  | (k, v) :: es => max (max (digits k) (digits v)) (entryDigits es)

end

end Value

end CompositeScript
