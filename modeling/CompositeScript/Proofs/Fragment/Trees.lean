import CompositeScript.Proofs.Fragment.Gaps
import CompositeScript.Proofs.Fragment.Reading
import CompositeScript.Proofs.Fragment.Scripts
import CompositeScript.Fragment.Grammar

/-!
The trees of a reading.

The trees that a rule reads spell the text in front of the rest, because the views and joins of the
grammar change forms and roles only. What a tree looks like says which rule has read it: most rules
can be ruled out by the form of their trees.
-/

namespace CompositeScript.Fragment

namespace Tree

variable {t u v : Tree} {ts us : List Tree} {r : Role}

@[simp] theorem texts_map_withRole (r : Role) (ts : List Tree) :
    texts (ts.map (withRole r)) = texts ts := by
  induction ts with
  | nil => rfl
  | cons t ts ih => simp [texts, ih]

/-! ## Targets -/

variable {binding : Bool} {f : Form}

theorem asTarget_leaf {x : Text} (h : asTarget binding (leaf r f x) = some u) :
    ∃ g, u = leaf r g x := by
  simp only [asTarget] at h
  split at h
  all_goals first | (cases h; exact ⟨_, rfl⟩) | skip
  split at h
  · cases h; exact ⟨_, rfl⟩
  · exact absurd h nofun

theorem asTarget_node (h : asTarget binding (node r f ts) = some u) :
    ∃ g us, u = node r g us ∧ (us = ts ∨ asTargets binding ts = some us) := by
  have hmap : ∀ {g}, (asTargets binding ts).map (node r g) = some u →
      ∃ g us, u = node r g us ∧ (us = ts ∨ asTargets binding ts = some us) := by
    intro g h
    obtain ⟨us, hus, rfl⟩ := Option.map_eq_some_iff.mp h
    exact ⟨g, us, rfl, .inr hus⟩
  have hsame : ∀ {p : Prop} [Decidable p] {g}, (if p then none else some (node r g ts)) = some u →
      ∃ g us, u = node r g us ∧ (us = ts ∨ asTargets binding ts = some us) := by
    intro p _ g h
    split at h
    · exact absurd h nofun
    · cases h; exact ⟨g, ts, rfl, .inl rfl⟩
  simp only [asTarget] at h
  split at h
  all_goals first | exact hmap h | exact hsame h | (cases h; exact ⟨_, ts, rfl, .inl rfl⟩) | skip
  · split at h
    · exact absurd h nofun
    · exact hmap h
  · exact absurd h nofun

theorem asTargets_cons (h : asTargets binding (t :: ts) = some us) :
    ∃ u us', us = u :: us' ∧ (u = t ∨ asTarget binding t = some u) ∧
      asTargets binding ts = some us' := by
  simp only [asTargets] at h
  split at h
  · exact absurd h nofun
  next u hu =>
    split at h
    · exact absurd h nofun
    next us' hus =>
      cases h
      refine ⟨u, us', rfl, ?_, hus⟩
      split at hu
      · cases hu; exact .inl rfl
      · exact .inr hu

mutual

theorem text_of_asTarget : ∀ (t : Tree) {u : Tree}, asTarget binding t = some u → u.text = t.text
  | leaf r f x, u, h => by
    obtain ⟨g, rfl⟩ := asTarget_leaf h
    rfl
  | node r f ts, u, h => by
    obtain ⟨g, us, rfl, rfl | hus⟩ := asTarget_node h
    · rfl
    · exact texts_of_asTargets ts hus

theorem texts_of_asTargets : ∀ (ts : List Tree) {us : List Tree},
    asTargets binding ts = some us → texts us = texts ts
  | [], us, h => by cases h; rfl
  | t :: ts, us, h => by
    obtain ⟨u, us', rfl, hu, hus⟩ := asTargets_cons h
    have hts := texts_of_asTargets ts hus
    rcases hu with rfl | hu
    · simp only [texts, hts]
    · simp only [texts, hts, text_of_asTarget t hu]

end

mutual

theorem texts_unsequenced : ∀ t : Tree, texts (unsequenced t) = t.text
  | leaf r f x => by simp [unsequenced, texts, text]
  | node r f ts => by
    by_cases hf : f = .sequence
    · subst hf
      rw [unsequenced, text, texts_unsequencedAll ts]
    · rw [unsequenced, texts, texts, List.append_nil]
      exact fun _ _ h => hf (by cases h; rfl)

theorem texts_unsequencedAll : ∀ ts : List Tree, texts (unsequencedAll ts) = texts ts
  | [] => rfl
  | t :: ts => by
    rw [unsequencedAll, texts_append, texts_unsequenced t, texts_unsequencedAll ts, texts]

end

theorem text_of_asWholeTarget (h : t.asWholeTarget = some u) : u.text = t.text := by
  simp only [asWholeTarget] at h
  split at h
  · cases h; rfl
  · exact absurd h nofun
  · exact text_of_asTarget t h

/-! ## Joins -/

theorem eq_of_asyncParameters? (h : t.asyncParameters? = some (ts, us)) :
    ∃ p q r, t = node p .call (leaf q .identifier "async" :: (ts ++ [node r .arguments us])) ∧
      ts.all isBlank = true ∧ hasNewline ts = false := by
  unfold asyncParameters? at h
  split at h
  next p q x vs =>
    split at h
    next r ws hlast =>
      split at h
      next hcond =>
        cases h
        simp only [Bool.and_eq_true, beq_iff_eq, Bool.not_eq_true'] at hcond
        obtain ⟨⟨rfl, hblank⟩, hline⟩ := hcond
        refine ⟨p, q, r, ?_, hblank, hline⟩
        rw [List.dropLast_append_getLast? _ hlast]
      next => exact absurd h nofun
    next => exact absurd h nofun
  next => exact absurd h nofun

theorem texts_of_asParameters {ts : List Tree} (h : asParameters ts = some us) :
    texts us = texts ts := by
  obtain ⟨vs, hvs, rfl⟩ := Option.map_eq_some_iff.mp h
  simp [texts, text, texts_of_asTargets _ hvs, texts_unsequencedAll]

theorem texts_of_asArrowHead (h : t.asArrowHead = some us) : texts us = t.text := by
  unfold asArrowHead at h
  split at h
  next r f x =>
    split at h
    · cases h; simp [texts, text]
    · exact absurd h nofun
  next r ts => exact texts_of_asParameters h
  next =>
    split at h
    next ts ws hasync =>
      obtain ⟨vs, hvs, rfl⟩ := Option.map_eq_some_iff.mp h
      obtain ⟨p, q, r, heq, -, -⟩ := eq_of_asyncParameters? hasync
      rw [heq]
      simp [texts, text, texts_of_asTargets _ hvs]
    next => exact absurd h nofun

theorem text_of_attach (h : attach t u = some v) : v.text = t.text ++ u.text := by
  unfold attach at h
  split at h
  next r ts =>
    obtain ⟨w, hw, rfl⟩ := Option.map_eq_some_iff.mp h
    simp [text, texts, text_of_asWholeTarget hw]
  next r ts =>
    split at h
    · cases h; simp [text, texts]
    · exact absurd h nofun
  next r ts =>
    obtain ⟨ws, hws, rfl⟩ := Option.map_eq_some_iff.mp h
    simp [text, texts_of_asArrowHead hws]
  next => exact absurd h nofun

theorem text_of_lead (h : lead r t u = some v) : v.text = t.text ++ u.text := by
  cases u with
  | leaf => exact absurd h nofun
  | node => cases h; simp [text, texts]

theorem text_of_leadOnce (h : leadOnce r t u = some v) : v.text = t.text ++ u.text := by
  unfold leadOnce at h
  split at h
  · exact absurd h nofun
  · exact text_of_lead h

theorem form_of_lead (h : lead r t u = some v) : v.form = u.form ∧ v.role = u.role := by
  cases u with
  | leaf => exact absurd h nofun
  | node => cases h; exact ⟨rfl, rfl⟩

theorem form_of_leadOnce (h : leadOnce r t u = some v) : v.form = u.form ∧ v.role = u.role := by
  unfold leadOnce at h
  split at h
  · exact absurd h nofun
  · exact form_of_lead h

theorem form_of_attach (h : attach t u = some v) : v.form = u.form ∧ v.role = u.role := by
  unfold attach at h
  split at h
  · obtain ⟨w, -, rfl⟩ := Option.map_eq_some_iff.mp h
    exact ⟨rfl, rfl⟩
  · split at h
    · cases h; exact ⟨rfl, rfl⟩
    · exact absurd h nofun
  · obtain ⟨w, -, rfl⟩ := Option.map_eq_some_iff.mp h
    exact ⟨rfl, rfl⟩
  · exact absurd h nofun

theorem texts_of_leadKey (h : leadKey ts = some us) : texts us = texts ts := by
  unfold leadKey at h
  split at h
  · cases h; simp [texts, text]
  · exact absurd h nofun

theorem texts_of_asAttributeName (h : asAttributeName ts = some us) : texts us = texts ts := by
  unfold asAttributeName at h
  split at h
  · cases h; simp [texts, text]
  · cases h; rfl

theorem texts_of_asIterated (h : asIterated ts = some us) : texts us = texts ts := by
  unfold asIterated at h
  split at h
  · exact absurd h nofun
  next word ts =>
    split at h
    next r name value hlast =>
      split at h
      · cases h
        have hts : ts = ts.dropLast ++ [node r .variableDeclarator (name :: value)] :=
          (List.dropLast_append_getLast? _ hlast).symm
        have htexts := congrArg texts hts
        simp only [texts_append, texts, text, List.append_nil] at htexts
        simp [texts, htexts]
      · exact absurd h nofun
    next => exact absurd h nofun

theorem text_of_iterate {isAwaited : Bool} (h : iterate isAwaited t u = some v) :
    v.text = t.text ++ u.text := by
  unfold iterate at h
  split at h
  next =>
    obtain ⟨ws, hws, rfl⟩ := Option.map_eq_some_iff.mp h
    simp [text, texts_of_asIterated hws]
  next =>
    split at h
    · exact absurd h nofun
    · obtain ⟨w, hw, rfl⟩ := Option.map_eq_some_iff.mp h
      simp [text, texts, text_of_asWholeTarget hw]
  next => exact absurd h nofun

end Tree

/-! ## Texts -/

namespace Rule

variable {σ : Type}

/-- The views and joins of the rule keep the text. -/
def KeepsText : Rule σ → Prop
  | seq a b | alt a b => a.KeepsText ∧ b.KeepsText
  | many a | refuse a => a.KeepsText
  | adapt view a =>
    (∀ ts us, view ts = some us → Tree.texts us = Tree.texts ts) ∧ a.KeepsText
  | grow join a step =>
    (∀ t u v, join t u = some v → v.text = t.text ++ u.text) ∧ a.KeepsText ∧
      ∀ t, (step t).KeepsText
  | done | leaf _ _ | blanks _ | ref _ => True

end Rule

section

variable {σ : Type} {G : σ → Rule σ} {r : Rule σ} {s rest : Text} {k : Bool} {ts : List Tree}

theorem inductive_texts (hG : ∀ z, (G z).KeepsText) : Inductive G
    (fun r s x => r.KeepsText → ∀ k ts rest, x = .found k ts rest → Tree.texts ts ++ rest = s)
    (fun join step t s _ u rest => (∀ t u v, join t u = some v → v.text = t.text ++ u.text) →
      (∀ t, (step t).KeepsText) → u.text ++ rest = t.text ++ s) where
  done s _ k ts rest h := by cases h; rfl
  leaf_absent _ _ _ _ _ h := absurd h nofun
  leaf_found _ _ _ _ _ _ h := by
    cases h
    simp [Tree.texts, Tree.text]
  blanks_absent _ _ _ _ _ _ h := absurd h nofun
  blanks_found hgap _ _ _ _ _ h := by
    cases h
    exact (gap?_eq_some.mp hgap).texts
  ref ih _ := ih (hG _)
  seq_absent _ _ _ _ _ h := absurd h nofun
  seq_stopped _ _ _ _ _ _ h := absurd h nofun
  seq_found iha ihb hr _ _ _ h := by
    cases h
    rw [Tree.texts_append, List.append_assoc, ihb hr.2 _ _ _ rfl, iha hr.1 _ _ _ rfl]
  alt_absent _ _ _ _ _ _ h := absurd h nofun
  alt_left ih hr _ _ _ h := ih hr.1 _ _ _ h
  alt_right _ ih hr _ _ _ h := ih hr.2 _ _ _ h
  many_stop _ _ _ _ _ h := by cases h; rfl
  many_next iha ih hr _ _ _ h := by
    cases h
    rw [Tree.texts_append, List.append_assoc, ih hr _ _ _ rfl, iha hr _ _ _ rfl]
  refuse_absent _ _ _ _ _ _ h := absurd h nofun
  refuse_found _ _ _ _ _ _ h := by cases h; rfl
  adapt_absent _ _ _ _ _ h := absurd h nofun
  adapt_stopped _ _ _ _ _ _ h := absurd h nofun
  adapt_found ih hview hr _ _ _ h := by
    cases h
    rw [hr.1 _ _ hview, ih hr.2 _ _ _ rfl]
  grow_absent _ _ _ _ _ h := absurd h nofun
  grow_found iha ih hr _ _ _ h := by
    cases h
    have hbase := iha hr.2.1 _ _ _ rfl
    simp only [Tree.texts, List.append_nil] at hbase ⊢
    rw [ih hr.1 hr.2.2, hbase]
  grows_stop _ _ _ := rfl
  grows_loose _ _ _ _ := rfl
  grows_next ihstep hjoin ih hkeeps hstep := by
    have hu := ihstep (hstep _) _ _ _ rfl
    simp only [Tree.texts, List.append_nil] at hu
    rw [ih hkeeps hstep, hkeeps _ _ _ hjoin, List.append_assoc, hu]

/-- What is found and the rest make up the text. -/
theorem Reads.texts (hG : ∀ z, (G z).KeepsText) (hr : r.KeepsText)
    (h : Reads G r s (.found k ts rest)) : Tree.texts ts ++ rest = s :=
  (inductive_texts hG).reads h hr k ts rest rfl

end

namespace Rule

variable {σ : Type} {r s : Rule σ} {rs : List (Rule σ)}

@[simp] theorem keepsText_done : (done : Rule σ).KeepsText := trivial

@[simp] theorem keepsText_leaf {f : Form} {l : Lexeme} : (leaf f l : Rule σ).KeepsText := trivial

@[simp] theorem keepsText_blanks {accept : List Tree → Bool} :
    (blanks accept : Rule σ).KeepsText := trivial

@[simp] theorem keepsText_ref {z : σ} : (ref z).KeepsText := trivial

@[simp] theorem keepsText_seq : (seq r s).KeepsText ↔ r.KeepsText ∧ s.KeepsText := Iff.rfl

@[simp] theorem keepsText_alt : (alt r s).KeepsText ↔ r.KeepsText ∧ s.KeepsText := Iff.rfl

@[simp] theorem keepsText_many : (many r).KeepsText ↔ r.KeepsText := Iff.rfl

@[simp] theorem keepsText_refuse : (refuse r).KeepsText ↔ r.KeepsText := Iff.rfl

@[simp] theorem keepsText_node {f : Form} : (node f r).KeepsText ↔ r.KeepsText := by
  simp [node, KeepsText, Tree.texts, Tree.text]

@[simp] theorem keepsText_role {q : Role} : (role q r).KeepsText ↔ r.KeepsText := by
  simp [role, KeepsText]

@[simp] theorem keepsText_test {accept : List Tree → Bool} :
    (test accept r).KeepsText ↔ r.KeepsText := by
  simp only [test, KeepsText, and_iff_right_iff_imp]
  intro _ ts us h
  split at h
  · cases h; rfl
  · exact absurd h nofun

@[simp] theorem keepsText_optional : (optional r).KeepsText ↔ r.KeepsText := by
  simp [optional]

@[simp] theorem keepsText_ahead : (ahead r).KeepsText ↔ r.KeepsText := Iff.rfl

@[simp] theorem keepsText_all : (all rs).KeepsText ↔ ∀ r ∈ rs, r.KeepsText := by
  induction rs with
  | nil => simp [all]
  | cons r rs ih => cases rs <;> simp_all [all]

@[simp] theorem keepsText_any : (any rs).KeepsText ↔ ∀ r ∈ rs, r.KeepsText := by
  induction rs with
  | nil => simp [any]
  | cons r rs ih => cases rs <;> simp_all [any]

end Rule

namespace Grammar

open Rule

variable {r : Part} {rs : List Part}

@[simp] theorem keepsText_spaced : (spaced rs).KeepsText ↔ ∀ r ∈ rs, r.KeepsText := by
  induction rs with
  | nil => simp [spaced]
  | cons r rs ih => cases rs <;> simp_all [spaced, KeepsText, gap]

@[simp] theorem keepsText_keyed {step : Part} :
    (keyed r step).KeepsText ↔ r.KeepsText ∧ step.KeepsText :=
  and_iff_right fun _ _ h => Tree.texts_of_leadKey h

@[simp] theorem keepsText_attributeName : attributeName.KeepsText :=
  ⟨fun _ _ h => Tree.texts_of_asAttributeName h, by
    simp [KeepsText, elementWord, localName, gap, token]⟩

section Grow

variable {step : Tree → Part}

@[simp] theorem keepsText_lead {q : Role} : (grow (Tree.lead q) r step).KeepsText ↔
    r.KeepsText ∧ ∀ t, (step t).KeepsText :=
  and_iff_right fun _ _ _ h => Tree.text_of_lead h

@[simp] theorem keepsText_leadOnce {q : Role} : (grow (Tree.leadOnce q) r step).KeepsText ↔
    r.KeepsText ∧ ∀ t, (step t).KeepsText :=
  and_iff_right fun _ _ _ h => Tree.text_of_leadOnce h

@[simp] theorem keepsText_attach : (grow Tree.attach r step).KeepsText ↔
    r.KeepsText ∧ ∀ t, (step t).KeepsText :=
  and_iff_right fun _ _ _ h => Tree.text_of_attach h

@[simp] theorem keepsText_iterate {isAwaited : Bool} :
    (grow (Tree.iterate isAwaited) r step).KeepsText ↔
      r.KeepsText ∧ ∀ t, (step t).KeepsText :=
  and_iff_right fun _ _ _ h => Tree.text_of_iterate h

end Grow

@[simp] theorem keepsText_propertyKey (c : Context) : (propertyKey c).KeepsText := by
  simp [propertyKey, propertyName, word, quoted, number, computedName, token]

@[simp] theorem keepsText_initialValue (c : Context) : (initialValue c).KeepsText := by
  simp [initialValue, gap, equalsSign, tokenNot]

@[simp] theorem keepsText_restPattern (c : Context) : (restPattern c).KeepsText := by
  simp [restPattern, token]

@[simp] theorem keepsText_enclosed {p q : Text} :
    (enclosed p r q).KeepsText ↔ r.KeepsText := by
  simp [enclosed, separated, more, comma, gap, token]

@[simp] theorem keepsText_arrayItems : (arrayItems r).KeepsText ↔ r.KeepsText := by
  simp [arrayItems, comma, gap, token]

@[simp] theorem keepsText_unlessOperator (c : Context) :
    (unlessOperator c r).KeepsText ↔ r.KeepsText := by
  simp only [unlessOperator]
  cases c.inAsync <;> cases c.inGenerator <;> simp [keyword, word]

@[simp] theorem keepsText_semicolon : semicolon.KeepsText := by
  simp [semicolon, gap, newline, finish, point, token]

@[simp] theorem keepsText_spread (c : Context) : (spread c).KeepsText := by
  simp [spread, token]

@[simp] theorem keepsText_functionRest (isAsync isGenerator : Bool) :
    (functionRest isAsync isGenerator).KeepsText := by
  simp [functionRest]

@[simp] theorem keepsText_asyncMark : asyncMark.KeepsText := by
  simp [asyncMark, keyword, word, lineGap]

@[simp] theorem keepsText_markedMethod : (markedMethod r).KeepsText ↔ r.KeepsText := by
  simp [markedMethod, keyword, word, token, gap]

@[simp] theorem keepsText_classRest (c : Context) : (classRest c).KeepsText := by
  simp [classRest, more, classMember, instanceMember, memberKey, privateName, accessorMark,
    methodStep, fieldStep, propertyName, point, number, keyword, word, token, gap]

@[simp] theorem keepsText_declaration (c : Context) : (declaration c).KeepsText := by
  simp [declaration, declarator, letDeclarator, separated, declared, ownName, comma, keyword, word,
    token, gap]

theorem keepsText_element (c : Context) (inContent : Bool) :
    (element c inContent).KeepsText := by
  have hend : ∀ inContent p, (elementEnd inContent p).KeepsText := by
    rintro (_ | _) p <;> simp [elementEnd, textMark, token]
  simp [element, elementContent, elementExpression, elementName, elementWord, localName,
    elementAttribute, hend, quoted, tokenNot, token, gap]

theorem keepsText_statement (c : Context) : (statement c).KeepsText := by
  have hdeclaration : functionDeclaration.KeepsText := by
    simp [functionDeclaration, ownName, keyword, word, token]
  have hloop : (loop c).KeepsText := by
    simp [loop, loopStart, keyword, word, token, gap]
  have hjump : ∀ w, (jump c w).KeepsText := by
    simp [jump, label, lineGap, keyword, word]
  have hstatement : (keywordStatement c).KeepsText := by
    simp [keywordStatement, hloop, hjump, parenthesized, more, handlers, catchClause, declared,
      ownName, switchCase, label, lineGap, keyword, word, token, gap]
  simp [statement, hstatement, hdeclaration, classDeclaration, expressionStatement, letDeclarator,
    ownName, keyword, word, token, gap]

theorem keepsText_assignment (c : Context) : (assignment c).KeepsText := by
  have hoperator : ∀ b w, (wordOperator b w lineGap).KeepsText := by
    rintro (_ | _) w <;> simp [wordOperator, operandAhead, point, lineGap, keyword, word]
  have harrow : ∀ isAsync, (arrowRest c isAsync).KeepsText := by
    simp [arrowRest, lineGap, token, gap]
  have hyield : (yield c).KeepsText := by
    simp only [yield]
    cases c.inGenerator <;> simp [hoperator, keyword, word, token, gap]
  simp [assignment, hyield, asyncArrow, harrow, operation, operator, ownName, word, gap]

theorem keepsText_unary (c : Context) : (unary c).KeepsText := by
  have hoperator : ∀ b w, (wordOperator b w gap).KeepsText := by
    rintro (_ | _) w <;>
      simp [wordOperator, operandAhead, point, lineGap, keyword, word, gap]
  simp [unary, hoperator, operator, lineGap, token]

theorem keepsText_chainStart (c : Context) : (chainStart c).KeepsText := by
  simp [chainStart, metaProperty, keyword, word, token]

end Grammar

open Grammar in
/-- Every rule of the grammar keeps the text. -/
theorem grammar_keepsText (z : Symbol) : (grammar z).KeepsText := by
  cases z with
  | program => simp [grammar, program, finish, point, gap]
  | statement c => exact keepsText_statement c
  | block c => simp [grammar, block, token, gap]
  | expression c => simp [grammar, expression, comma, gap]
  | assignment c => exact keepsText_assignment c
  | conditional c => simp [grammar, conditional, operator, token, gap]
  | binary c => simp [grammar, binary, operator, gap]
  | unary c => exact keepsText_unary c
  | chain c =>
    simp [grammar, chain, keepsText_chainStart, callStep, memberStep, subscriptStep, bracketed,
      optionalStep, templateStep, propertyName, privateName, tokenNot, token, word, gap]
  | construction c =>
    simp [grammar, construction, keepsText_chainStart, memberStep, subscriptStep, bracketed,
      templateStep, propertyName, privateName, tokenNot, token, keyword, word, gap]
  | primary c =>
    simp [grammar, primary, identifier, constant, parentheses, listed, quoted, number, regex,
      privateName, comma, lineGap, token, keyword, word, gap]
  | arguments c => simp [grammar, arguments]
  | template c => simp [grammar, template, textMark, token]
  | property c => simp [grammar, property, methodStep, token, word, gap]
  | classLiteral c => simp [grammar, classLiteral, more, ownName, keyword, word, gap]
  | functionLiteral =>
    simp [grammar, functionLiteral, more, ownName, token, keyword, word, gap]
  | parameters c =>
    simp only [grammar, parameters]
    split
    · simp [patternList, separated, comma, token, gap]
    · exact ⟨fun _ _ => Tree.texts_of_asParameters, by simp [listed, comma, token, gap]⟩
  | bindingTarget c =>
    simp [grammar, bindingTarget, identifier, patternProperty, token, word]
  | bindingElement c => simp [grammar, bindingElement]
  | element c inContent => exact keepsText_element c inContent

/-! ## Kinds of trees -/

section

variable {σ : Type} {G : σ → Rule σ} {a b : Rule σ} {p q : Tree → Prop}

/-- A tree has not grown, or it is what the last step made. -/
theorem Grows.last {join : Tree → Tree → Option Tree} {step : Tree → Rule σ} {t u : Tree}
    {s rest : Text} {k : Bool} (h : Grows G join step t s k u rest) :
    (u = t ∧ rest = s ∧ k = false) ∨ ∃ t' s' k' w mid,
      Reads G (step t') s' (.found k' [w] mid) ∧ join t' w = some u := by
  induction h with
  | stop => exact .inl ⟨rfl, rfl, rfl⟩
  | loose => exact .inl ⟨rfl, rfl, rfl⟩
  | @next t w v u s mid rest k k' hread hjoin _ ih =>
    rcases ih with ⟨rfl, rfl, rfl⟩ | hlast
    · exact .inr ⟨t, s, k, w, rest, hread, hjoin⟩
    · exact .inr hlast

/-- Every tree that the rule reads is such a tree. -/
def Yields (G : σ → Rule σ) (p : Tree → Prop) (r : Rule σ) : Prop :=
  ∀ ⦃s k ts rest⦄, Reads G r s (.found k ts rest) → ∀ t ∈ ts, p t

namespace Yields

theorem leaf {f : Form} {l : Lexeme} (h : ∀ x, p (.leaf .plain f x)) :
    Yields G p (.leaf f l) := by
  intro s k ts rest hr t ht
  obtain ⟨n, -, -, -, rfl, -⟩ := reads_leaf_found.mp hr
  cases List.mem_singleton.mp ht
  exact h _

theorem blanks {accept : List Tree → Bool} (hblank : ∀ x, p (.leaf .plain .blank x))
    (hcomment : ∀ x, p (.leaf .plain .comment x)) : Yields G p (.blanks accept) := by
  intro s k ts rest hr t ht
  obtain ⟨-, hgap, -⟩ := reads_blanks_found.mp hr
  obtain ⟨x, rfl | rfl⟩ := (gap?_eq_some.mp hgap).leaves t ht
  · exact hblank x
  · exact hcomment x

theorem ref {z : σ} (h : Yields G p (G z)) : Yields G p (.ref z) :=
  fun _ _ _ _ hr => h (reads_ref.mp hr)

theorem seq (ha : Yields G p a) (hb : Yields G p b) : Yields G p (.seq a b) := by
  intro s k ts rest hr t ht
  obtain ⟨k₁, ts₁, mid, k₂, ts₂, hra, hrb, -, rfl⟩ := reads_seq_found.mp hr
  rcases List.mem_append.mp ht with ht | ht
  · exact ha hra t ht
  · exact hb hrb t ht

theorem alt (ha : Yields G p a) (hb : Yields G p b) : Yields G p (.alt a b) := by
  intro s k ts rest hr
  rcases reads_alt_found.mp hr with hr | ⟨-, hr⟩
  · exact ha hr
  · exact hb hr

theorem refuse : Yields G p (.refuse a) := by
  intro s k ts rest hr t ht
  obtain ⟨-, -, rfl, -⟩ := reads_refuse_found.mp hr
  exact absurd ht nofun

theorem node {f : Form} (h : ∀ us, p (.node .plain f us)) : Yields G p (.node f a) := by
  intro s k ts rest hr t ht
  obtain ⟨us, -, rfl⟩ := reads_node_found.mp hr
  cases List.mem_singleton.mp ht
  exact h us

theorem grow {join : Tree → Tree → Option Tree} {step : Tree → Rule σ} (ha : Yields G p a)
    (hstep : ∀ t, Yields G q (step t))
    (hjoin : ∀ {t u v}, q u → join t u = some v → p v) : Yields G p (.grow join a step) := by
  intro s k ts rest hr t ht
  obtain ⟨k₁, t₀, mid, k₂, u, hra, hgrows, -, rfl⟩ := reads_grow_found.mp hr
  cases List.mem_singleton.mp ht
  have hbase : p t₀ := ha hra t₀ List.mem_cons_self
  clear hr ht hra
  induction hgrows with
  | stop => exact hbase
  | loose => exact hbase
  | next hread hv _ ih => exact ih (hjoin (hstep _ hread _ List.mem_cons_self) hv)

theorem all {rs : List (Rule σ)} (h : ∀ r ∈ rs, Yields G p r) : Yields G p (Rule.all rs) := by
  induction rs with
  | nil =>
    intro s k ts rest hr t ht
    cases reads_done.mp hr
    exact absurd ht nofun
  | cons r rs ih =>
    have hr := h r List.mem_cons_self
    have hrs := ih fun r' hr' => h r' (.tail r hr')
    cases rs with
    | nil => exact hr
    | cons r' rs => exact hr.seq hrs

theorem any {rs : List (Rule σ)} (h : ∀ r ∈ rs, Yields G p r) : Yields G p (Rule.any rs) := by
  induction rs with
  | nil => exact refuse
  | cons r rs ih =>
    have hr := h r List.mem_cons_self
    have hrs := ih fun r' hr' => h r' (.tail r hr')
    cases rs with
    | nil => exact hr
    | cons r' rs => exact hr.alt hrs

/-- The children of a node are the trees of its parts. -/
theorem children {f : Form} (h : Yields G p a) :
    Yields G (fun t => ∀ c ∈ t.children, p c) (.node f a) := by
  intro s k ts rest hr t ht
  obtain ⟨us, hus, rfl⟩ := reads_node_found.mp hr
  cases List.mem_singleton.mp ht
  exact h hus

end Yields

/-- The rule reads one tree. -/
def Singles (G : σ → Rule σ) (r : Rule σ) : Prop :=
  ∀ ⦃s k ts rest⦄, Reads G r s (.found k ts rest) → ∃ t, ts = [t]

namespace Singles

theorem node {f : Form} : Singles G (.node f a) := by
  intro s k ts rest hr
  obtain ⟨us, -, rfl⟩ := reads_node_found.mp hr
  exact ⟨_, rfl⟩

theorem grow {join : Tree → Tree → Option Tree} {step : Tree → Rule σ} :
    Singles G (.grow join a step) := by
  intro s k ts rest hr
  obtain ⟨_, _, _, _, u, -, -, -, rfl⟩ := reads_grow_found.mp hr
  exact ⟨u, rfl⟩

theorem ref {z : σ} (h : Singles G (G z)) : Singles G (.ref z) :=
  fun _ _ _ _ hr => h (reads_ref.mp hr)

theorem alt (ha : Singles G a) (hb : Singles G b) : Singles G (.alt a b) := by
  intro s k ts rest hr
  rcases reads_alt_found.mp hr with hr | ⟨-, hr⟩
  · exact ha hr
  · exact hb hr

end Singles

/-- A single tree of the kind `p` that the rule reads is read by `target`. -/
def Traces (G : σ → Rule σ) (p : Tree → Prop) (target r : Rule σ) : Prop :=
  ∀ ⦃s k t rest⦄, Reads G r s (.found k [t] rest) → p t → Reads G target s (.found k [t] rest)

namespace Traces

variable {target : Rule σ}

theorem self : Traces G p target target := fun _ _ _ _ h _ => h

theorem of_yields (h : Yields G (fun t => ¬ p t) a) : Traces G p target a :=
  fun _ _ _ _ hr hp => absurd hp (h hr _ List.mem_cons_self)

theorem ref {z : σ} (h : Traces G p target (G z)) : Traces G p target (.ref z) :=
  fun _ _ _ _ hr hp => h (reads_ref.mp hr) hp

theorem alt (ha : Traces G p target a) (hb : Traces G p target b) :
    Traces G p target (.alt a b) := by
  intro s k t rest hr hp
  rcases reads_alt_found.mp hr with hr | ⟨-, hr⟩
  · exact ha hr hp
  · exact hb hr hp

theorem any {rs : List (Rule σ)} (h : ∀ r ∈ rs, Traces G p target r) :
    Traces G p target (Rule.any rs) := by
  induction rs with
  | nil => exact of_yields Yields.refuse
  | cons r rs ih =>
    have hr := h r List.mem_cons_self
    have hrs := ih fun r' hr' => h r' (.tail r hr')
    cases rs with
    | nil => exact hr
    | cons r' rs => exact hr.alt hrs

/-- A tree of the kind is none that has grown. -/
theorem grow {join : Tree → Tree → Option Tree} {step : Tree → Rule σ}
    (ha : Traces G p target a) (hstep : ∀ t, Yields G q (step t))
    (hjoin : ∀ {t u v}, q u → join t u = some v → ¬ p v) :
    Traces G p target (.grow join a step) := by
  intro s k t rest hr hp
  obtain ⟨k₁, t₀, mid, k₂, u, hra, hgrows, rfl, hu⟩ := reads_grow_found.mp hr
  cases hu
  rcases hgrows.last with ⟨rfl, rfl, rfl⟩ | ⟨t', s', k', w, mid', hread, hv⟩
  · rw [Bool.or_false]
    exact ha hra hp
  · exact absurd hp (hjoin (hstep _ hread w List.mem_cons_self) hv)

end Traces

end

end CompositeScript.Fragment
