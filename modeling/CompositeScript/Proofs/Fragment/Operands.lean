import CompositeScript.Proofs.Fragment.Closing
import CompositeScript.Proofs.Fragment.Wrapped

/-!
Expressions read from an operand on.

An operand that no operator stands before and none follows is read by every rule for expressions.
-/

namespace CompositeScript.Fragment

open Rule Grammar

section

variable {σ : Type} {G : σ → Rule σ}

/-- Every alternative of the rule starts with a gap. -/
inductive Rule.SkipsGap : Rule σ → Prop
  | seq {accept : List Tree → Bool} {r : Rule σ} : accept [] = true →
      SkipsGap (seq (blanks accept) r)
  | alt {a b : Rule σ} : SkipsGap a → SkipsGap b → SkipsGap (alt a b)
  | node {f : Form} {a : Rule σ} : SkipsGap a → SkipsGap (node f a)

/-- What is absent behind a gap is absent before it. -/
theorem Rule.SkipsGap.absent {r : Rule σ} {s s' : Text} {ts : List Tree} (hr : r.SkipsGap)
    (hgap : gap? s = some (ts, s')) (h : Reads G r s' .absent) : Reads G r s .absent := by
  have hstops : gap? s' = some ([], s') := gap?_eq_some.mpr (gap?_eq_some.mp hgap).rest_stops
  induction hr with
  | @seq accept r haccept =>
    have hr : Reads G r s' .absent := by
      rcases reads_seq_absent.mp h with h | ⟨us, rest, hus, h⟩
      · obtain ⟨us, rest, hus, hfalse⟩ := reads_blanks_absent.mp h
        rw [hstops] at hus
        cases hus
        exact absurd (haccept.symm.trans hfalse) nofun
      · obtain ⟨-, hus, -⟩ := reads_blanks_found.mp hus
        rw [hstops] at hus
        cases hus
        exact h
    cases haccept' : accept ts with
    | false => exact reads_seq_absent.mpr (.inl (reads_blanks_absent.mpr ⟨ts, s', hgap, haccept'⟩))
    | true => exact .seq_absent (reads_blanks_found.mpr ⟨rfl, hgap, haccept'⟩) hr
  | alt _ _ iha ihb =>
    obtain ⟨ha, hb⟩ := reads_alt_absent.mp h
    exact reads_alt_absent.mpr ⟨iha ha, ihb hb⟩
  | node _ ih => exact reads_node_absent.mpr (ih (reads_node_absent.mp h))

end

namespace Grammar

/-- What goes on with a chain. -/
def chainStep : Part :=
  any [callStep {}, memberStep, subscriptStep {}, optionalStep {}, templateStep {}]

/-- An operator directly behind its operand. -/
def updateStep : Part := node .update (seq lineGap (alt (token "++") (token "--")))

/-- An operator and its second operand. -/
def binaryStep : Part :=
  node .binary (all [gap, operator (Lexeme.binaryOperator true), gap, ref (.unary {})])

/-- The two branches of a choice. -/
def ternaryStep : Part :=
  node .ternary (all [gap, operator Lexeme.questionMark, gap, ref (.assignment {}), gap, token ":",
    gap, ref (.assignment {})])

/-- A value that is assigned. -/
def assignmentStep : Part :=
  alt (node .assignment (initialValue {}))
    (node .augmentedAssignment
      (all [gap, operator Lexeme.augmentedOperator, gap, role .right (ref (.assignment {}))]))

/-- An arrow and a body. -/
def arrowStep (isAsync : Bool) : Part := node .arrowFunction (arrowRest {} isAsync)

/-- One more expression. -/
def sequenceStep : Part := node .sequence (all [gap, comma, gap, ref (.assignment {})])

/-- An operator before its operand. -/
def unaryStart : Part :=
  any [node .unary (spaced [operator Lexeme.unaryOperator, role .argument (ref (.unary {}))]),
    node .update (spaced [alt (token "++") (token "--"), ref (.unary {})]),
    node .await (seq (wordOperator false "await" gap) (ref (.unary {})))]

end Grammar

/-- No operator goes on with an operand before the text. -/
structure EndsOperand (s : Text) : Prop where
  chain : Reads grammar chainStep s .absent
  update : Reads grammar updateStep s .absent
  binary : Reads grammar binaryStep s .absent
  ternary : Reads grammar ternaryStep s .absent

/-- Nothing goes on with an expression before the text. -/
structure EndsExpression (s : Text) : Prop extends EndsOperand s where
  assignment : Reads grammar assignmentStep s .absent
  arrow : ∀ isAsync, Reads grammar (arrowStep isAsync) s .absent
  sequence : Reads grammar sequenceStep s .absent

section

variable {s s' : Text} {ts : List Tree}

theorem EndsOperand.of_gap (h : EndsOperand s') (hgap : gap? s = some (ts, s')) :
    EndsOperand s where
  chain := SkipsGap.absent (.alt (.node (.seq rfl)) (.alt (.node (.seq rfl))
    (.alt (.node (.seq rfl)) (.alt (.alt (.node (.seq rfl)) (.node (.seq rfl)))
      (.node (.seq rfl)))))) hgap h.chain
  update := SkipsGap.absent (.node (.seq rfl)) hgap h.update
  binary := SkipsGap.absent (.node (.seq rfl)) hgap h.binary
  ternary := SkipsGap.absent (.node (.seq rfl)) hgap h.ternary

theorem EndsExpression.of_gap (h : EndsExpression s') (hgap : gap? s = some (ts, s')) :
    EndsExpression s where
  toEndsOperand := h.toEndsOperand.of_gap hgap
  assignment := SkipsGap.absent (.alt (.node (.seq rfl)) (.node (.seq rfl))) hgap h.assignment
  arrow isAsync := SkipsGap.absent (.node (.seq rfl)) hgap (h.arrow isAsync)
  sequence := SkipsGap.absent (.node (.seq rfl)) hgap h.sequence

theorem endsExpression_close (x : Text) : EndsExpression (Text.ofString ")" ++ x) where
  chain := .absent_of_run 20 rfl
  update := .absent_of_run 20 rfl
  binary := .absent_of_run 20 rfl
  ternary := .absent_of_run 20 rfl
  assignment := .absent_of_run 20 rfl
  arrow isAsync := by cases isAsync <;> exact .absent_of_run 20 rfl
  sequence := .absent_of_run 20 rfl

theorem endsExpression_semicolon (x : Text) : EndsExpression (Text.ofString ";" ++ x) where
  chain := .absent_of_run 20 rfl
  update := .absent_of_run 20 rfl
  binary := .absent_of_run 20 rfl
  ternary := .absent_of_run 20 rfl
  assignment := .absent_of_run 20 rfl
  arrow isAsync := by cases isAsync <;> exact .absent_of_run 20 rfl
  sequence := .absent_of_run 20 rfl

theorem endsOperand_arrow (x : Text) : EndsOperand (Text.ofString "=>" ++ x) where
  chain := .absent_of_run 20 rfl
  update := .absent_of_run 20 rfl
  binary := .absent_of_run 20 rfl
  ternary := .absent_of_run 20 rfl

theorem assignmentStep_absent_arrow (x : Text) :
    Reads grammar assignmentStep (Text.ofString "=>" ++ x) .absent := .absent_of_run 20 rfl

end

/-- No operator stands at the front of the text, and no chain starts there but from an operand. -/
structure StartsOperand (s : Text) : Prop where
  yield : Reads grammar (yield {}) s .absent
  asyncArrow : Reads grammar (asyncArrow {}) s .absent
  operator : Reads grammar unaryStart s .absent
  metaProperty : Reads grammar metaProperty s .absent
  construction : Reads grammar (ref (.construction {})) s .absent

section

variable {s mid rest : Text} {k k' : Bool} {ts : List Tree} {t u v : Tree}

theorem reads_chain (hs : StartsOperand s)
    (h : Reads grammar (ref (.primary {})) s (.found k [t] mid))
    (hgrows : Grows grammar (Tree.lead .plain) (fun _ => chainStep) t mid k' u rest) :
    Reads grammar (ref (.chain {})) s (.found (k || k') [u] rest) := by
  have hstart : Reads grammar (chainStart {}) s (.found k [t] mid) :=
    (Reads.alt_right hs.metaProperty).mpr ((Reads.alt_right hs.construction).mpr h)
  exact .ref (reads_grow_found.mpr ⟨k, t, mid, k', u, hstart, hgrows, rfl, rfl⟩)

theorem reads_unary (hs : StartsOperand s)
    (h : Reads grammar (ref (.chain {})) s (.found k [t] rest)) (hrest : EndsOperand rest) :
    Reads grammar (ref (.unary {})) s (.found k [t] rest) := by
  obtain ⟨hunary, hothers⟩ := reads_alt_absent.mp hs.operator
  obtain ⟨hupdate, hawait⟩ := reads_alt_absent.mp hothers
  refine .ref ((Reads.alt_right hunary).mpr ((Reads.alt_right hupdate).mpr
    ((Reads.alt_right hawait).mpr ?_)))
  exact reads_grow_found.mpr ⟨k, t, rest, false, t, h, .stop hrest.update, by simp, rfl⟩

theorem reads_conditional (h : Reads grammar (ref (.unary {})) s (.found k [t] rest))
    (hrest : EndsOperand rest) : Reads grammar (ref (.conditional {})) s (.found k [t] rest) := by
  have hbinary : Reads grammar (ref (.binary {})) s (.found k [t] rest) :=
    .ref (reads_grow_found.mpr ⟨k, t, rest, false, t, h, .stop hrest.binary, by simp, rfl⟩)
  exact .ref (reads_grow_found.mpr
    ⟨k, t, rest, false, t, hbinary, .stop hrest.ternary, by simp, rfl⟩)

theorem EndsExpression.stop (h : EndsExpression s) (t : Tree) :
    Reads grammar (any [node .assignment (initialValue {}),
      node .augmentedAssignment
        (all [gap, operator Lexeme.augmentedOperator, gap, role .right (ref (.assignment {}))]),
      arrowStep t.asyncParameters?.isSome]) s .absent := by
  obtain ⟨hassignment, haugmented⟩ := reads_alt_absent.mp h.assignment
  exact reads_alt_absent.mpr ⟨hassignment, reads_alt_absent.mpr ⟨haugmented, h.arrow _⟩⟩

theorem reads_expression (hyield : Reads grammar (Grammar.yield {}) s .absent)
    (hasync : Reads grammar (Grammar.asyncArrow {}) s .absent)
    (h : Reads grammar (operation {}) s (.found k [t] rest)) (hrest : EndsExpression rest) :
    Reads grammar (ref (.expression {})) s (.found k [t] rest) := by
  have hassignment : Reads grammar (ref (.assignment {})) s (.found k [t] rest) :=
    .ref ((Reads.alt_right hyield).mpr ((Reads.alt_right hasync).mpr h))
  exact .ref (reads_grow_found.mpr
    ⟨k, t, rest, false, t, hassignment, .stop hrest.sequence, by simp, rfl⟩)

theorem reads_operation (h : Reads grammar (ref (.conditional {})) s (.found k [t] rest))
    (hrest : EndsExpression rest) : Reads grammar (operation {}) s (.found k [t] rest) :=
  reads_grow_found.mpr ⟨k, t, rest, false, t, h, .stop (hrest.stop t), by simp, rfl⟩

/-- An arrow behind what can be its head. -/
theorem reads_arrow (h : Reads grammar (ref (.conditional {})) s (.found k [t] mid))
    (hassignment : Reads grammar assignmentStep mid .absent)
    (hstep : Reads grammar (arrowStep t.asyncParameters?.isSome) mid (.found k' [u] rest))
    (hjoin : t.attach u = some v) (hrest : EndsExpression rest) :
    Reads grammar (operation {}) s (.found (k || k') [v] rest) := by
  obtain ⟨hplain, haugmented⟩ := reads_alt_absent.mp hassignment
  refine reads_grow_found.mpr ⟨k, t, mid, k' || false, v, h, ?_, by simp, rfl⟩
  exact .next ((Reads.alt_right hplain).mpr ((Reads.alt_right haugmented).mpr hstep)) hjoin
    (.stop (hrest.stop v))

/-! ## Scripts -/

theorem startsOperand_parenthesis (x : Text) : StartsOperand (Text.ofString "(" ++ x) where
  yield := .absent_of_run 20 rfl
  asyncArrow := .absent_of_run 20 rfl
  operator := .absent_of_run 20 rfl
  metaProperty := .absent_of_run 20 rfl
  construction := .absent_of_run 20 rfl

theorem reads_primary_parentheses {x : Text}
    (h : Reads grammar (parentheses {}) (Text.ofString "(" ++ x) (.found k [t] rest)) :
    Reads grammar (ref (.primary {})) (Text.ofString "(" ++ x) (.found k [t] rest) := by
  have hfunction : Reads grammar (ref .functionLiteral) (Text.ofString "(" ++ x) .absent :=
    .absent_of_run 20 rfl
  have hname : Reads grammar (unlessOperator {} identifier) (Text.ofString "(" ++ x) .absent :=
    .absent_of_run 20 rfl
  have hconstant : Reads grammar constant (Text.ofString "(" ++ x) .absent := .absent_of_run 20 rfl
  exact .ref ((Reads.alt_right hfunction).mpr ((Reads.alt_right hname).mpr
    ((Reads.alt_right hconstant).mpr h.alt_left)))

theorem reads_gap (hgap : gap? s = some (ts, rest)) :
    Reads grammar gap s (.found false ts rest) :=
  reads_gap_found.mpr ⟨hgap, rfl⟩

theorem reads_token (p rest : Text) :
    Reads grammar (token p) (p ++ rest) (.found true [.leaf .plain .token p] rest) :=
  reads_token_found.mpr ⟨rfl, rfl, rfl⟩

/-- An expression in parentheses. -/
theorem reads_parenthesized {b x a : Text} {e : Tree} (hb : b.all Lexeme.isSpace = true)
    (ha : a.all Lexeme.isSpace = true)
    (hx : ∀ fresh, Lexeme.blank fresh (x ++ (a ++ (Text.ofString ")" ++ rest))) = none)
    (h : Reads grammar (ref (.expression {})) (x ++ (a ++ (Text.ofString ")" ++ rest)))
      (.found k [e] (a ++ (Text.ofString ")" ++ rest)))) :
    Reads grammar (parentheses {})
      (Text.ofString "(" ++ (b ++ (x ++ (a ++ (Text.ofString ")" ++ rest)))))
      (.found true [.node .plain .parenthesized (.leaf .plain .token "(" :: (blankTrees b ++
        e :: (blankTrees a ++ [.leaf .plain .token ")"])))] rest) := by
  have hclose : ∀ fresh, Lexeme.blank fresh (Text.ofString ")" ++ rest) = none := by
    intro fresh
    cases fresh <;> rfl
  exact (Reads.seq (reads_token _ _) (.seq (reads_gap (gap?_blanks hb hx))
    (.alt_left (.seq h (.seq (reads_gap (gap?_blanks ha hclose))
      (.alt_left (reads_token _ _))))))).node

/-- An operand in parentheses is negated by the mark before it. -/
theorem reads_negated {x : Text} (h : Reads grammar (parentheses {}) (Text.ofString "(" ++ x)
    (.found k [t] rest)) (hrest : EndsOperand rest) :
    Reads grammar (ref (.unary {})) (Text.ofString "!(" ++ x)
      (.found true [.node .plain .unary [.leaf .plain .token "!", t.withRole .argument]] rest) := by
  have hs := startsOperand_parenthesis x
  have hchain := reads_chain hs (reads_primary_parentheses h) (.stop hrest.chain)
  have hmark : Reads grammar (operator Lexeme.unaryOperator) (Text.ofString "!(" ++ x)
      (.found true [.leaf .plain .token "!"] (Text.ofString "(" ++ x)) := .found_of_run 20 rfl
  have hgap : Reads grammar gap (Text.ofString "(" ++ x)
      (.found false [] (Text.ofString "(" ++ x)) := .found_of_run 20 rfl
  exact .ref (.alt_left (.node (.seq hmark (.seq hgap (reads_unary hs hchain hrest).role))))

/-- A statement that starts with a negation. -/
theorem reads_statement {x : Text}
    (h : Reads grammar (ref (.expression {})) (Text.ofString "!(" ++ x)
      (.found k [t] (Text.ofString ";"))) :
    Reads grammar (ref (.statement {})) (Text.ofString "!(" ++ x)
      (.found true [.node .plain .expressionStatement [t, .leaf .plain .token ";"]] []) := by
  have hnone : Reads grammar (refuse (any [token "\x7b", keyword "function",
      seq asyncMark (keyword "function"), keyword "class", letDeclarator]))
      (Text.ofString "!(" ++ x) (.found false [] (Text.ofString "!(" ++ x)) := .found_of_run 20 rfl
  have hend : Reads grammar semicolon (Text.ofString ";")
      (.found true [.leaf .plain .token ";"] []) := .found_of_run 20 rfl
  have hstatement := (hnone.seq (h.seq hend)).node (f := .expressionStatement)
  rw [Bool.or_true, Bool.or_true] at hstatement
  exact reads_statement_negation.mpr hstatement

/-- An expression in negated parentheses is a script. -/
theorem reads_wrapping {b x a : Text} {e : Tree} (hb : b.all Lexeme.isSpace = true)
    (ha : a.all Lexeme.isSpace = true)
    (hx : ∀ fresh, Lexeme.blank fresh (x ++ (a ++ Text.ofString ");")) = none)
    (h : Reads grammar (ref (.expression {})) (x ++ (a ++ Text.ofString ");"))
      (.found k [e] (a ++ Text.ofString ");"))) :
    Reads grammar (ref .program) (wrap (b ++ (x ++ a)))
      (.found true [Tree.wrapping (blankTrees b) e (blankTrees a)] []) := by
  have hwrap : wrap (b ++ (x ++ a)) =
      Text.ofString "!(" ++ (b ++ (x ++ (a ++ Text.ofString ");"))) := by
    simp [wrap]
  have hends : EndsExpression (Text.ofString ";") := endsExpression_semicolon []
  have hparentheses : Reads grammar (parentheses {}) _ (.found true _ (Text.ofString ";")) :=
    reads_parenthesized hb ha hx h
  have hnegated := reads_negated hparentheses hends.toEndsOperand
  have hstatement := reads_statement (reads_expression (.absent_of_run 20 rfl)
    (.absent_of_run 20 rfl) (reads_operation (reads_conditional hnegated hends.toEndsOperand) hends)
    hends)
  have hgap : ∀ y, Reads grammar gap (Text.ofString "!(" ++ y)
      (.found false [] (Text.ofString "!(" ++ y)) := fun y => .found_of_run 20 rfl
  have hstop : Reads grammar (seq (ref (.statement {})) gap) [] .absent := .absent_of_run 20 rfl
  have hfinish : Reads grammar finish [] (.found false [] []) := .found_of_run 20 rfl
  have hblank : Reads grammar gap [] (.found false [] []) := .found_of_run 20 rfl
  rw [hwrap]
  have hstatements := reads_many_found.mpr (.next (hstatement.seq hblank) (.stop hstop))
  exact .ref ((hgap _).seq (hstatements.seq hfinish)).node

end

end CompositeScript.Fragment
