import CompositeScript.Proofs.Fragment.Lexemes
import CompositeScript.Fragment.Grammar

/-!
The grammar of fragments is local: what any of its rules reads before a closing bracket, from one
calm place to another, does not depend on what follows the bracket.
-/

namespace CompositeScript.Fragment

open Lexeme Rule

variable {b : CodePoint}

namespace Rule

variable {σ : Type} {r s : Rule σ} {rs : List (Rule σ)}

@[simp] theorem isLocal_seq : (seq r s).IsLocal b ↔ r.IsLocal b ∧ s.IsLocal b := Iff.rfl

@[simp] theorem isLocal_alt : (alt r s).IsLocal b ↔ r.IsLocal b ∧ s.IsLocal b := Iff.rfl

@[simp] theorem isLocal_many : (many r).IsLocal b ↔ r.IsLocal b := Iff.rfl

@[simp] theorem isLocal_refuse : (refuse r).IsLocal b ↔ r.IsProbe b := Iff.rfl

@[simp] theorem isLocal_adapt {view : List Tree → Option (List Tree)} :
    (adapt view r).IsLocal b ↔ r.IsLocal b := Iff.rfl

@[simp] theorem isLocal_grow {join : Tree → Tree → Option Tree} {step : Tree → Rule σ} :
    (grow join r step).IsLocal b ↔ r.IsLocal b ∧ ∀ t, (step t).IsLocal b := Iff.rfl

@[simp] theorem isLocal_done : (done : Rule σ).IsLocal b := trivial

@[simp] theorem isProbe_seq : (seq r s).IsProbe b ↔ r.IsToken b ∧ s.IsProbe b := Iff.rfl

@[simp] theorem isProbe_alt : (alt r s).IsProbe b ↔ r.IsProbe b ∧ s.IsProbe b := Iff.rfl

@[simp] theorem isProbe_refuse : (refuse r).IsProbe b ↔ r.IsProbe b := Iff.rfl

@[simp] theorem isToken_seq : (seq r s).IsToken b ↔ r.IsToken b ∧ s.IsToken b := Iff.rfl

@[simp] theorem isToken_alt : (alt r s).IsToken b ↔ r.IsToken b ∧ s.IsToken b := Iff.rfl

@[simp] theorem isLocal_node {f : Form} : (node f r).IsLocal b ↔ r.IsLocal b := Iff.rfl

@[simp] theorem isLocal_role {q : Role} : (role q r).IsLocal b ↔ r.IsLocal b := Iff.rfl

@[simp] theorem isLocal_test {p : List Tree → Bool} : (test p r).IsLocal b ↔ r.IsLocal b := Iff.rfl

@[simp] theorem isLocal_optional : (optional r).IsLocal b ↔ r.IsLocal b := by
  simp [optional, IsLocal]

@[simp] theorem isLocal_ahead : (ahead r).IsLocal b ↔ r.IsProbe b := Iff.rfl

@[simp] theorem isLocal_all : (all rs).IsLocal b ↔ ∀ r ∈ rs, r.IsLocal b := by
  induction rs with
  | nil => simp [all]
  | cons r rs ih => cases rs <;> simp_all [all]

@[simp] theorem isLocal_any : (any rs).IsLocal b ↔ ∀ r ∈ rs, r.IsLocal b := by
  induction rs with
  | nil => simp [any, IsProbe]
  | cons r rs ih => cases rs <;> simp_all [any]

@[simp] theorem isProbe_any : (any rs).IsProbe b ↔ ∀ r ∈ rs, r.IsProbe b := by
  induction rs with
  | nil => simp [any, IsProbe]
  | cons r rs ih => cases rs <;> simp_all [any, IsProbe]

end Rule

namespace Grammar

variable {r : Part} {rs : List Part}

@[simp] theorem isLocal_spaced : (spaced rs).IsLocal b ↔ ∀ r ∈ rs, r.IsLocal b := by
  induction rs with
  | nil => simp [spaced]
  | cons r rs ih => cases rs <;> simp_all [spaced, IsLocal, gap]

@[simp] theorem isLocal_more : (more r).IsLocal b ↔ r.IsLocal b := by
  simp [more, IsLocal, gap]

/-- A text without a bracket that closes. -/
def isUnclosed (p : Text) : Bool := p.all fun c => c ≠ ')' && c ≠ '\x7d'

theorem not_mem_of_isUnclosed (hb : IsClosing b) {p : Text} (h : isUnclosed p = true) : b ∉ p := by
  intro hp
  have := List.all_eq_true.mp h b hp
  rcases hb with rfl | rfl <;> exact absurd this (by decide)

/-- A mark that is settled before a bracket: it holds no bracket that closes, or it is one. -/
def isSettled (p stops : Text) : Bool := isUnclosed p || (p.length = 1 && stops.isEmpty)

theorem mark_stable (hb : IsClosing b) {p stops : Text} (h : isSettled p stops = true) :
    Stable b (mark p stops) := by
  by_cases hp : b ∈ p
  · rcases Bool.or_eq_true_iff.mp h with h | h
    · exact absurd hp (not_mem_of_isUnclosed hb h)
    · obtain ⟨hlength, hstops⟩ := Bool.and_eq_true_iff.mp h
      obtain ⟨c, rfl⟩ := List.length_eq_one_iff.mp (of_decide_eq_true hlength)
      cases List.mem_singleton.mp hp
      rw [List.isEmpty_iff.mp hstops]
      exact (mark_self_fixed b).stable
  · exact (mark_fixed hp stops).stable

/-- A firm mark that is settled before a bracket. -/
def isTokenMark (p stops : Text) : Bool := isSolidMark p stops && isSettled p stops

theorem mark_local (hb : IsClosing b) {p stops : Text} (h : isTokenMark p stops = true) :
    Lexeme.Local b (.plain (mark p stops) true) :=
  have h := Bool.and_eq_true_iff.mp h
  .of_firm (mark_stable hb h.2) fun hm => (solid_of_mark h.1 hm).passes _

@[simp] theorem isLocal_token (hb : IsClosing b) {p : Text} (h : isTokenMark p [] = true) :
    (token p).IsLocal b :=
  mark_local hb h

@[simp] theorem isLocal_tokenNot (hb : IsClosing b) {p stops : Text}
    (h : isTokenMark p stops = true) : (tokenNot p stops).IsLocal b :=
  mark_local hb h

@[simp] theorem isProbe_token (hb : IsClosing b) {p : Text} (h : isSettled p [] = true) :
    (token p).IsProbe b :=
  leaf_isProbe (mark_stable hb h) _ _

@[simp] theorem isToken_keyword (hb : IsClosing b) {w : Text} (h : isUnclosed w = true) :
    (keyword w).IsToken b :=
  ⟨keyword_local hb (not_mem_of_isUnclosed hb h), rfl⟩

@[simp] theorem isLocal_keyword (hb : IsClosing b) {w : Text} (h : isUnclosed w = true) :
    (keyword w).IsLocal b :=
  (isToken_keyword hb h).isLocal

@[simp] theorem isLocal_word_keyword (hb : IsClosing b) {w : Text} {f : Form}
    (h : isUnclosed w = true) : (word f (Lexeme.keyword w)).IsLocal b :=
  keyword_local hb (not_mem_of_isUnclosed hb h)

@[simp] theorem isProbe_keyword (hb : IsClosing b) {w : Text} (h : isUnclosed w = true) :
    (keyword w).IsProbe b :=
  leaf_isProbe (keyword_fixed hb (not_mem_of_isUnclosed hb h)).stable _ _

@[simp] theorem isLocal_comma (hb : IsClosing b) : comma.IsLocal b := comma_local hb

@[simp] theorem isLocal_ownName (hb : IsClosing b) (f : Form) :
    (word f Lexeme.ownName).IsLocal b :=
  ownName_local hb

@[simp] theorem isLocal_identifier (hb : IsClosing b) : identifier.IsLocal b := name_local hb

@[simp] theorem isLocal_propertyName (hb : IsClosing b) : propertyName.IsLocal b := word_local hb

@[simp] theorem isLocal_privateName (hb : IsClosing b) : privateName.IsLocal b :=
  privateName_local hb

@[simp] theorem isProbe_ownName (hb : IsClosing b) : ownName.IsProbe b :=
  leaf_isProbe (ownName_stable hb) _ _

@[simp] theorem isProbe_propertyName (hb : IsClosing b) : propertyName.IsProbe b :=
  leaf_isProbe (word_stable hb) _ _

@[simp] theorem isProbe_privateName (hb : IsClosing b) : privateName.IsProbe b :=
  leaf_isProbe (privateName_stable hb) _ _

@[simp] theorem isLocal_number (hb : IsClosing b) : number.IsLocal b := number_local hb

@[simp] theorem isProbe_number (hb : IsClosing b) : number.IsProbe b :=
  leaf_isProbe (number_fixed hb).stable _ _

@[simp] theorem isProbe_point (p : CodePoint → Bool) : (point p).IsProbe b :=
  leaf_isProbe (starts_fixed p).stable _ _

@[simp] theorem isLocal_quoted_string (hb : IsClosing b) : (quoted Lexeme.string).IsLocal b :=
  string_local hb

@[simp] theorem isLocal_quoted_attributeString (hb : IsClosing b) :
    (quoted Lexeme.attributeString).IsLocal b :=
  attributeString_local hb

@[simp] theorem isLocal_charactersAfter (hb : IsClosing b) {c : CodePoint}
    (hc : isPlainStart c = true) : (textMark (charactersAfter c)).IsLocal b :=
  charactersAfter_local hb hc

@[simp] theorem isLocal_textAfter {c : CodePoint} (hc : isPlainStart c = true) :
    (textMark (textAfter c)).IsLocal b :=
  textAfter_local hc

@[simp] theorem isLocal_elementWord (hb : IsClosing b) (f : Form) :
    (elementWord f).IsLocal b :=
  elementWord_local hb

@[simp] theorem isLocal_regex (hb : IsClosing b) : regex.IsLocal b := regex_local hb

@[simp] theorem isLocal_substitutionMark (hb : IsClosing b) : (token "$\x7b").IsLocal b :=
  substitution_local hb

@[simp] theorem isLocal_chainMark (hb : IsClosing b) :
    (word .token Lexeme.chainMark).IsLocal b :=
  chainMark_local hb

@[simp] theorem isLocal_unaryOperator (hb : IsClosing b) :
    (operator Lexeme.unaryOperator).IsLocal b :=
  unaryOperator_local hb

@[simp] theorem isLocal_binaryOperator (hb : IsClosing b) (allowIn : Bool) :
    (operator (Lexeme.binaryOperator allowIn)).IsLocal b :=
  binaryOperator_local hb allowIn

@[simp] theorem isLocal_augmentedOperator (hb : IsClosing b) :
    (operator Lexeme.augmentedOperator).IsLocal b :=
  augmentedOperator_local hb

@[simp] theorem isLocal_questionMark (hb : IsClosing b) :
    (operator Lexeme.questionMark).IsLocal b :=
  questionMark_local hb

@[simp] theorem isLocal_gap : gap.IsLocal b := trivial

@[simp] theorem isLocal_lineGap : lineGap.IsLocal b := trivial

@[simp] theorem isLocal_ref (x : Symbol) : (ref x : Part).IsLocal b := trivial

@[simp] theorem isToken_gap : gap.IsToken b := trivial

@[simp] theorem isToken_lineGap : lineGap.IsToken b := trivial

@[simp] theorem isToken_newline : newline.IsToken b := trivial

@[simp] theorem isLocal_parenthesized (hb : IsClosing b) (c : Context) :
    (parenthesized c).IsLocal b := by
  simp +decide [parenthesized, hb]

@[simp] theorem isLocal_separated (hb : IsClosing b) :
    (separated r).IsLocal b ↔ r.IsLocal b := by
  simp [separated, hb]

@[simp] theorem isLocal_enclosed (hb : IsClosing b) {p q : Text} (hp : isTokenMark p [] = true)
    (hq : isTokenMark q [] = true) : (enclosed p r q).IsLocal b ↔ r.IsLocal b := by
  simp [enclosed, hb, hp, hq]

@[simp] theorem isLocal_arrayItems (hb : IsClosing b) :
    (arrayItems r).IsLocal b ↔ r.IsLocal b := by
  simp +decide [arrayItems, hb]

@[simp] theorem isLocal_unlessOperator (hb : IsClosing b) (c : Context) :
    (unlessOperator c r).IsLocal b ↔ r.IsLocal b := by
  simp only [unlessOperator]
  cases c.inAsync <;> cases c.inGenerator <;> simp +decide [hb]

@[simp] theorem isLocal_semicolon (hb : IsClosing b) : semicolon.IsLocal b := by
  simp +decide [semicolon, finish, hb]

/-! ## Patterns -/

@[simp] theorem isLocal_equalsSign (hb : IsClosing b) : equalsSign.IsLocal b := by
  simp +decide [equalsSign, hb]

@[simp] theorem isLocal_initialValue (hb : IsClosing b) (c : Context) :
    (initialValue c).IsLocal b := by
  simp [initialValue, hb]

@[simp] theorem isLocal_propertyKey (hb : IsClosing b) (c : Context) :
    (propertyKey c).IsLocal b := by
  simp +decide [propertyKey, computedName, hb]

@[simp] theorem isLocal_restPattern (hb : IsClosing b) (c : Context) :
    (restPattern c).IsLocal b := by
  simp +decide [restPattern, hb]

theorem isLocal_bindingTarget (hb : IsClosing b) (c : Context) : (bindingTarget c).IsLocal b := by
  simp +decide [bindingTarget, patternProperty, hb]

theorem isLocal_bindingElement (hb : IsClosing b) (c : Context) :
    (bindingElement c).IsLocal b := by
  simp [bindingElement, hb]

/-! ## Elements -/

@[simp] theorem isLocal_spread (hb : IsClosing b) (c : Context) : (spread c).IsLocal b := by
  simp +decide [spread, hb]

@[simp] theorem isLocal_elementName (hb : IsClosing b) : elementName.IsLocal b := by
  simp +decide [elementName, localName, hb]

@[simp] theorem isLocal_elementEnd (hb : IsClosing b) (inContent : Bool) {p : CodePoint}
    (hp : isPlainStart p = true) : (elementEnd inContent p).IsLocal b := by
  cases inContent <;> simp [elementEnd, isTokenMark, isSolidMark, isSettled, hb, hp]

@[simp] theorem isLocal_elementExpression (hb : IsClosing b) (c : Context) (inContent : Bool) :
    (elementExpression c inContent).IsLocal b := by
  simp +decide [elementExpression, hb]

@[simp] theorem isLocal_elementAttribute (hb : IsClosing b) (c : Context) :
    (elementAttribute c).IsLocal b := by
  simp +decide [elementAttribute, attributeName, localName, hb]

@[simp] theorem isLocal_elementContent (hb : IsClosing b) (c : Context) :
    (elementContent c).IsLocal b := by
  simp +decide [elementContent, hb]

theorem isLocal_element (hb : IsClosing b) (c : Context) (inContent : Bool) :
    (element c inContent).IsLocal b := by
  simp +decide [element, hb]

/-! ## Functions and classes -/

@[simp] theorem isLocal_asyncMark (hb : IsClosing b) : asyncMark.IsLocal b := by
  simp +decide [asyncMark, hb]

@[simp] theorem isLocal_functionRest (isAsync isGenerator : Bool) :
    (functionRest isAsync isGenerator).IsLocal b := by
  simp [functionRest]

theorem isLocal_functionLiteral (hb : IsClosing b) : functionLiteral.IsLocal b := by
  simp +decide [functionLiteral, ownName, hb]

@[simp] theorem isLocal_functionDeclaration (hb : IsClosing b) :
    functionDeclaration.IsLocal b := by
  simp +decide [functionDeclaration, ownName, hb]

@[simp] theorem isLocal_markedMethod (hb : IsClosing b) :
    (markedMethod r).IsLocal b ↔ r.IsLocal b := by
  simp +decide [markedMethod, hb]

@[simp] theorem isLocal_methodStep : methodStep.IsLocal b := by simp [methodStep]

@[simp] theorem isLocal_keyed {step : Part} :
    (keyed r step).IsLocal b ↔ r.IsLocal b ∧ step.IsLocal b := Iff.rfl

@[simp] theorem isProbe_accessorMark (hb : IsClosing b) : accessorMark.IsProbe b := by
  simp +decide [accessorMark, spaced, hb]

@[simp] theorem isLocal_instanceMember (hb : IsClosing b) (c : Context) :
    (instanceMember c).IsLocal b := by
  simp [instanceMember, memberKey, fieldStep, hb]

@[simp] theorem isLocal_classRest (hb : IsClosing b) (c : Context) :
    (classRest c).IsLocal b := by
  simp +decide [classRest, classMember, hb]

theorem isLocal_classLiteral (hb : IsClosing b) (c : Context) : (classLiteral c).IsLocal b := by
  simp +decide [classLiteral, ownName, hb]

@[simp] theorem isLocal_classDeclaration (hb : IsClosing b) (c : Context) :
    (classDeclaration c).IsLocal b := by
  simp +decide [classDeclaration, ownName, hb]

/-! ## Expressions -/

theorem isLocal_template (hb : IsClosing b) (c : Context) : (template c).IsLocal b := by
  simp +decide [template, hb]

theorem isLocal_property (hb : IsClosing b) (c : Context) : (property c).IsLocal b := by
  simp +decide [property, hb]

@[simp] theorem isLocal_parentheses (hb : IsClosing b) (c : Context) :
    (parentheses c).IsLocal b := by
  simp +decide [parentheses, listed, hb]

theorem isLocal_parameters (hb : IsClosing b) (c : Context) : (parameters c).IsLocal b := by
  unfold parameters
  split
  · simp +decide [patternList, hb]
  · simp +decide [listed, hb]

theorem isLocal_primary (hb : IsClosing b) (c : Context) : (primary c).IsLocal b := by
  simp +decide [primary, constant, hb]

theorem isLocal_arguments (hb : IsClosing b) (c : Context) : (arguments c).IsLocal b := by
  simp +decide [arguments, hb]

@[simp] theorem isLocal_bracketed (hb : IsClosing b) (c : Context) :
    (bracketed c).IsLocal b := by
  simp +decide [bracketed, hb]

@[simp] theorem isLocal_memberStep (hb : IsClosing b) : memberStep.IsLocal b := by
  simp +decide [memberStep, hb]

@[simp] theorem isLocal_chainStart (hb : IsClosing b) (c : Context) :
    (chainStart c).IsLocal b := by
  simp +decide [chainStart, metaProperty, hb]

theorem isLocal_construction (hb : IsClosing b) (c : Context) : (construction c).IsLocal b := by
  simp +decide [construction, subscriptStep, templateStep, spaced, hb]

theorem isLocal_chain (hb : IsClosing b) (c : Context) : (chain c).IsLocal b := by
  simp +decide [chain, callStep, subscriptStep, optionalStep, templateStep, hb]

@[simp] theorem isLocal_wordOperator (hb : IsClosing b) (isOperator : Bool) {w : Text}
    (hw : isUnclosed w = true) (hr : r.IsLocal b) : (wordOperator isOperator w r).IsLocal b := by
  cases isOperator <;> simp +decide [wordOperator, operandAhead, hb, hw, hr]

theorem isLocal_unary (hb : IsClosing b) (c : Context) : (unary c).IsLocal b := by
  simp +decide [unary, hb]

theorem isLocal_binary (hb : IsClosing b) (c : Context) : (binary c).IsLocal b := by
  simp [binary, hb]

theorem isLocal_conditional (hb : IsClosing b) (c : Context) : (conditional c).IsLocal b := by
  simp +decide [conditional, hb]

@[simp] theorem isLocal_arrowRest (hb : IsClosing b) (c : Context) (isAsync : Bool) :
    (arrowRest c isAsync).IsLocal b := by
  simp +decide [arrowRest, hb]

theorem isLocal_assignment (hb : IsClosing b) (c : Context) : (assignment c).IsLocal b := by
  have hyield : (yield c).IsLocal b := by
    simp only [yield]
    cases c.inGenerator <;> simp +decide [hb]
  simp +decide [assignment, hyield, asyncArrow, operation, ownName, hb]

theorem isLocal_expression (hb : IsClosing b) (c : Context) : (expression c).IsLocal b := by
  simp [expression, hb]

/-! ## Statements -/

theorem isLocal_block (hb : IsClosing b) (c : Context) : (block c).IsLocal b := by
  simp +decide [block, hb]

@[simp] theorem isProbe_letDeclarator (hb : IsClosing b) : letDeclarator.IsProbe b := by
  simp +decide [letDeclarator, ahead, hb]

@[simp] theorem isLocal_declared (hb : IsClosing b) (c : Context) : (declared c).IsLocal b := by
  simp [declared, ownName, hb]

@[simp] theorem isLocal_declaration (hb : IsClosing b) (c : Context) :
    (declaration c).IsLocal b := by
  simp +decide [declaration, declarator, letDeclarator, hb]

@[simp] theorem isLocal_loop (hb : IsClosing b) (c : Context) : (loop c).IsLocal b := by
  simp +decide [loop, loopStart, hb]

@[simp] theorem isLocal_label (hb : IsClosing b) (c : Context) : (label c).IsLocal b := by
  simp [label, hb]

@[simp] theorem isLocal_jump (hb : IsClosing b) (c : Context) {w : Text}
    (hw : isUnclosed w = true) : (jump c w).IsLocal b := by
  simp [jump, hb, hw]

@[simp] theorem isLocal_keywordStatement (hb : IsClosing b) (c : Context) :
    (keywordStatement c).IsLocal b := by
  simp +decide [keywordStatement, handlers, catchClause, switchCase, hb]

@[simp] theorem isLocal_expressionStatement (hb : IsClosing b) (c : Context) :
    (expressionStatement c).IsLocal b := by
  simp +decide [expressionStatement, asyncMark, hb]

theorem isLocal_statement (hb : IsClosing b) (c : Context) : (statement c).IsLocal b := by
  simp [statement, hb]

theorem isLocal_program : program.IsLocal b := by
  simp [program, finish]

end Grammar

open Grammar in
/-- Every rule of the grammar is local. -/
theorem grammar_isLocal (hb : IsClosing b) (z : Symbol) : (grammar z).IsLocal b := by
  cases z with
  | program => exact isLocal_program
  | statement c => exact isLocal_statement hb c
  | block c => exact isLocal_block hb c
  | expression c => exact isLocal_expression hb c
  | assignment c => exact isLocal_assignment hb c
  | conditional c => exact isLocal_conditional hb c
  | binary c => exact isLocal_binary hb c
  | unary c => exact isLocal_unary hb c
  | chain c => exact isLocal_chain hb c
  | construction c => exact isLocal_construction hb c
  | primary c => exact isLocal_primary hb c
  | arguments c => exact isLocal_arguments hb c
  | template c => exact isLocal_template hb c
  | property c => exact isLocal_property hb c
  | classLiteral c => exact isLocal_classLiteral hb c
  | functionLiteral => exact isLocal_functionLiteral hb
  | parameters c => exact isLocal_parameters hb c
  | bindingTarget c => exact isLocal_bindingTarget hb c
  | bindingElement c => exact isLocal_bindingElement hb c
  | element c inContent => exact isLocal_element hb c inContent

end CompositeScript.Fragment
