import CompositeScript.Fragment.Arrow
import CompositeScript.Fragment.Gap
import Mathlib.Data.List.Basic

/-!
Scripts around a fragment, from whatever parser.

The conversion to an arrow function follows one path in the tree of a script: to the only statement,
to the operation that it is, to the operand in parentheses and to the only tree in these
(`Tree.Route`). Beside the path there may be white space, and in a looser reading of the same shape
also comments (`Tree.Negates`).
-/

namespace CompositeScript.Fragment

namespace Tree

variable {t c : Tree} {ts : List Tree} {r : Role} {f : Form} {x : Text}

@[simp] theorem texts_append (ts us : List Tree) : texts (ts ++ us) = texts ts ++ texts us := by
  induction ts with
  | nil => rfl
  | cons t ts ih => simp [texts, ih]

@[simp] theorem text_withRole (r : Role) (t : Tree) : (t.withRole r).text = t.text := by
  cases t <;> rfl

@[simp] theorem form_withRole (r : Role) (t : Tree) : (t.withRole r).form = t.form := by
  cases t <;> rfl

@[simp] theorem role_withRole (r : Role) (t : Tree) : (t.withRole r).role = r := by cases t <;> rfl

@[simp] theorem children_withRole (r : Role) (t : Tree) : (t.withRole r).children = t.children := by
  cases t <;> rfl

@[simp] theorem role_leaf : (leaf r f x).role = r := rfl

@[simp] theorem role_node : (node r f ts).role = r := rfl

@[simp] theorem form_leaf : (leaf r f x).form = f := rfl

@[simp] theorem form_node : (node r f ts).form = f := rfl

mutual

/-- Whether two trees are the same. -/
def decEq : (t u : Tree) → Decidable (t = u)
  | leaf r f x, leaf r' f' x' => decidable_of_iff (r = r' ∧ f = f' ∧ x = x') (by simp)
  | node r f ts, node r' f' us =>
    have := decEqs ts us
    decidable_of_iff (r = r' ∧ f = f' ∧ ts = us) (by simp)
  | leaf _ _ _, node _ _ _ | node _ _ _, leaf _ _ _ => isFalse nofun

/-- Whether two lists of trees are the same. -/
def decEqs : (ts us : List Tree) → Decidable (ts = us)
  | [], [] => isTrue rfl
  | t :: ts, u :: us =>
    have := decEq t u
    have := decEqs ts us
    decidable_of_iff (t = u ∧ ts = us) (by simp)
  | [], _ :: _ | _ :: _, [] => isFalse nofun

end

instance : DecidableEq Tree := decEq

theorem text_eq_texts (h : c ∈ t.children) : t.text = texts t.children := by
  cases t with
  | leaf => cases h
  | node => rfl

theorem onlyChild?_eq_some : t.onlyChild? = some c ↔ t.children.filter isNamed = [c] := by
  rw [onlyChild?, namedChildren]
  rcases t.children.filter isNamed with _ | ⟨d, _ | ⟨e, es⟩⟩ <;> simp

theorem mem_of_onlyChild? (h : t.onlyChild? = some c) : c ∈ t.children :=
  (List.mem_filter.mp (onlyChild?_eq_some.mp h ▸ List.mem_cons_self)).1

/-! ## The path to the expression -/

/-- The path from a script to the parentheses that it negates. -/
structure Route (script : Tree) where
  statement : Tree
  operation : Tree
  operand : Tree
  only_statement : script.onlyChild? = some statement
  form_statement : statement.form = .expressionStatement
  only_operation : statement.onlyChild? = some operation
  argument : operation.child? .argument = some operand
  form_operand : operand.form = .parenthesized

theorem operand?_eq_some {script : Tree} :
    script.operand? = some t ↔ ∃ route : Route script, route.operand = t := by
  constructor
  · intro h
    obtain ⟨statement, hstatement, h⟩ := Option.bind_eq_some_iff.mp h
    split at h
    · cases h
    next hform =>
      obtain ⟨operation, hoperation, h⟩ := Option.bind_eq_some_iff.mp h
      obtain ⟨operand, hoperand, h⟩ := Option.bind_eq_some_iff.mp h
      split at h
      · cases h
      next hparenthesized =>
        cases h
        exact ⟨⟨statement, operation, t, hstatement, by simpa using hform, hoperation, hoperand,
          by simpa using hparenthesized⟩, rfl⟩
  · rintro ⟨route, rfl⟩
    simp [operand?, route.only_statement, route.form_statement, route.only_operation,
      route.argument, route.form_operand]

theorem wrapped?_eq_some {script : Tree} : script.wrapped? = some t ↔
    ∃ route : Route script, route.operand.onlyChild? = some t := by
  constructor
  · intro h
    obtain ⟨t, ht, hf⟩ := Option.bind_eq_some_iff.mp h
    obtain ⟨route, rfl⟩ := operand?_eq_some.mp ht
    exact ⟨route, hf⟩
  · rintro ⟨route, hf⟩
    exact Option.bind_eq_some_iff.mpr ⟨_, operand?_eq_some.mpr ⟨route, rfl⟩, hf⟩

/-! ## White space and comments -/

/-- White space or a comment, as it may stand between two tokens. -/
inductive IsGap : Tree → Prop
  | blank {x : Text} : x.all Lexeme.isSpace = true → IsGap (leaf .plain .blank x)
  | comment {x : Text} {fresh : Bool} : Lexeme.blank fresh x = some (.comment, some x.length) →
      IsGap (leaf .plain .comment x)

end Tree

/-- White space and comments. -/
def AreGaps (ts : List Tree) : Prop := ∀ t ∈ ts, t.IsGap

end CompositeScript.Fragment
