import CompositeScript.Proofs.Fragment.Functions
import CompositeScript.Proofs.Fragment.ParameterLists

/-!
The parser of the grammar is regular and uniform.

A function whose parts stand in a text is read there, whatever follows its last bracket, and its
parameters and its body are read in an arrow function as they are read in the function.
-/

namespace CompositeScript.Fragment

open Rule Grammar

/-! ## The function in its place -/

theorem listed_starts {s rest : Text} {close : Part} {k : Bool} {ts : List Tree}
    (h : Reads grammar (listed {} close) s (.found k ts rest)) :
    ∃ x, s = Text.ofString "(" ++ x := by
  obtain ⟨_, _, _, _, _, hopen, -, -, -⟩ := reads_seq_found.mp h
  exact ⟨_, (reads_token_found.mp hopen).1⟩

namespace FunctionParts

variable {rest : Text}

theorem ownName_absent {s : Text} {k : Bool} {ts : List Tree}
    (h : Reads grammar (keyword "function") s (.found k ts rest)) :
    Reads grammar ownName s .absent := by
  obtain ⟨hkeyword, -, -, rfl⟩ := reads_keyword_found.mp h
  have hname : Lexeme.ownName (Text.ofString "function" ++ rest) = none := by
    obtain ⟨hword, -⟩ := word_of_keyword hkeyword
    rw [Lexeme.ownName, Lexeme.name, hword]
    rfl
  exact reads_leaf_absent.mpr (by simp [Lexeme.plain, hname])

/-- A function starts like an operand. -/
theorem startsOperand_function {s : Text} {k : Bool} {f : Tree}
    (h : Reads grammar (ref .functionLiteral) s (.found k [f] rest)) : StartsOperand s := by
  have hplain : ∀ {r : Part} {k us}, Reads grammar (seq (keyword "function") r) s
      (.found k us rest) → StartsOperand s := by
    intro r k us h
    obtain ⟨_, _, _, _, _, hkeyword, -, -, -⟩ := reads_seq_found.mp h
    obtain ⟨-, -, -, rfl⟩ := reads_keyword_found.mp hkeyword
    exact ⟨.absent_of_run 20 rfl, .absent_of_run 20 rfl, .absent_of_run 20 rfl,
      .absent_of_run 20 rfl, .absent_of_run 20 rfl⟩
  have hasync : ∀ {r : Part} {k us}, Reads grammar (seq asyncMark (seq (keyword "function") r)) s
      (.found k us rest) → StartsOperand s := by
    intro r k us h
    obtain ⟨_, _, _, _, _, hmark, h₁, -, -⟩ := reads_seq_found.mp h
    obtain ⟨_, _, _, _, _, hfunction, -, -, -⟩ := reads_seq_found.mp h₁
    obtain ⟨_, _, _, _, _, hkeyword, hline, rfl, -⟩ := reads_seq_found.mp hmark
    obtain ⟨-, rfl, -, rfl⟩ := reads_keyword_found.mp hkeyword
    obtain ⟨rfl, -, -⟩ := reads_blanks_found.mp hline
    refine ⟨.absent_of_run 20 rfl, ?_, .absent_of_run 20 rfl, .absent_of_run 20 rfl,
      .absent_of_run 20 rfl⟩
    exact reads_node_absent.mpr (hmark.seq_absent (reads_seq_absent.mpr (.inl
      (reads_role_absent.mpr (ownName_absent hfunction)))))
  rcases reads_alt_found.mp (reads_ref.mp h) with h₁ | ⟨-, h₁⟩
  · obtain ⟨us, hus, -⟩ := reads_node_found.mp h₁
    exact hplain hus
  rcases reads_alt_found.mp h₁ with h₂ | ⟨-, h₂⟩
  · obtain ⟨us, hus, -⟩ := reads_node_found.mp h₂
    exact hasync hus
  rcases reads_alt_found.mp h₂ with h₃ | ⟨-, h₃⟩
  · obtain ⟨us, hus, -⟩ := reads_node_found.mp h₃
    exact hplain hus
  · obtain ⟨us, hus, -⟩ := reads_node_found.mp h₃
    exact hasync hus

/-- A function ends with its bracket and is read before whatever stands behind it. -/
theorem relocate_function {s : Text} {k : Bool} {f : Tree}
    (h : Reads grammar (ref .functionLiteral) s (.found k [f] rest)) :
    (∃ z : Text, f.text = z ++ Text.ofString "\x7d") ∧
      ∀ w, Reads grammar (ref .functionLiteral) (f.text ++ w) (.found k [f] w) := by
  have hplaced := h.relocate (.inr rfl) closes_functionLiteral trivial keepsText_ref
  rw [Tree.texts, Tree.texts, List.append_nil] at hplaced
  exact hplaced

/-- A function is read where an expression is expected, if it is the last one in parentheses. -/
theorem reads_expression_function {s a : Text} {k : Bool} {f : Tree}
    (h : Reads grammar (ref .functionLiteral) s (.found k [f] rest))
    (ha : a.all Lexeme.isSpace = true) : ∃ k',
      Reads grammar (ref (.expression {})) (f.text ++ (a ++ Text.ofString ");"))
        (.found k' [f] (a ++ Text.ofString ");")) := by
  have hplaced := (relocate_function h).2 (a ++ Text.ofString ");")
  have hclose : ∀ fresh, Lexeme.blank fresh (Text.ofString ");") = none :=
    fun fresh => by cases fresh <;> rfl
  have hends : EndsExpression (a ++ Text.ofString ");") :=
    (endsExpression_close (Text.ofString ";")).of_gap (gap?_blanks ha hclose)
  have hs := startsOperand_function hplaced
  have hchain := reads_chain hs (.ref hplaced.alt_left) (.stop hends.chain)
  have hconditional := reads_conditional (reads_unary hs hchain hends.toEndsOperand)
    hends.toEndsOperand
  exact ⟨_, reads_expression hs.yield hs.asyncArrow (reads_operation hconditional hends) hends⟩

/-- The text of a function starts with a letter. -/
theorem starts_function {s : Text} {k : Bool} {f : Tree}
    (h : Reads grammar (ref .functionLiteral) s (.found k [f] rest)) :
    ∃ c y, f.text = c :: y ∧ (c = 'f' ∨ c = 'a') := by
  obtain ⟨w, hw, x, hx⟩ := text_of_function h
  simp only [List.mem_cons, List.not_mem_nil, or_false] at hw
  rcases hw with rfl | rfl
  · exact ⟨_, _, hx.symm, .inl rfl⟩
  · exact ⟨_, _, hx.symm, .inr rfl⟩

theorem blank_function {s : Text} {k : Bool} {f : Tree}
    (h : Reads grammar (ref .functionLiteral) s (.found k [f] rest)) (w : Text) (fresh : Bool) :
    Lexeme.blank fresh (f.text ++ w) = none := by
  obtain ⟨c, y, hfirst, hc⟩ := starts_function h
  rw [hfirst]
  rcases hc with rfl | rfl <;> cases fresh <;> rfl

end FunctionParts

/-! ## Fragments around expressions -/

namespace Tree

variable {p : Form → Bool} {t : Tree} {ts us : List Tree}

@[simp] theorem anyForms_append : anyForms p (ts ++ us) = (anyForms p ts || anyForms p us) := by
  induction ts with
  | nil => rfl
  | cons t ts ih => simp [anyForms, ih, Bool.or_assoc]

theorem isCovered {f : Form} (h : f ≠ .coverInitializer) : (f == .coverInitializer) = false :=
  beq_eq_false_iff_ne.mpr h

theorem isCovered_blankTrees (x : Text) :
    anyForms (· == .coverInitializer) (blankTrees x) = false := by
  cases x <;> rfl

theorem anyForm_wrapping {b a : Text} :
    (wrapping (blankTrees b) t (blankTrees a)).anyForm (· == .coverInitializer) =
      t.anyForm (· == .coverInitializer) := by
  simp [wrapping, anyForm, anyForms, isCovered_blankTrees, isCovered]

theorem filter_blankTrees (x : Text) : (blankTrees x).filter isNamed = [] := by
  cases x <;> rfl

theorem wrapped?_wrapping {b a : Text} (h : t.isNamed = true) :
    (wrapping (blankTrees b) t (blankTrees a)).wrapped? = some t := by
  have honly : onlyChild? (.node .argument .parenthesized (.leaf .plain .token "(" ::
      (blankTrees b ++ t :: (blankTrees a ++ [.leaf .plain .token ")"])))) = some t := by
    rw [onlyChild?_eq_some]
    simp [children, List.filter_cons, filter_blankTrees, h]
    rfl
  exact honly

end Tree

theorem parse_wrapping {b x a : Text} {e : Tree} {k : Bool}
    (hb : b.all Lexeme.isSpace = true) (ha : a.all Lexeme.isSpace = true)
    (hx : ∀ fresh, Lexeme.blank fresh (x ++ (a ++ Text.ofString ");")) = none)
    (h : Reads grammar (ref (.expression {})) (x ++ (a ++ Text.ofString ");"))
      (.found k [e] (a ++ Text.ofString ");")))
    (hcover : e.anyForm (· == .coverInitializer) = false) :
    parse (wrap (b ++ (x ++ a))) = some (Tree.wrapping (blankTrees b) e (blankTrees a)) :=
  parse_eq_some.mpr ⟨⟨_, reads_wrapping hb ha hx h⟩, by rw [Tree.anyForm_wrapping, hcover]⟩

namespace FunctionParts

variable {p : FunctionParts} {s rest : Text}

/-! ## The parts -/

/-- The parameter list is read before whatever stands behind it. -/
theorem reads_listed_parameters (hp : p.IsRead s rest) :
    ∃ k ts, Tree.asParameters ts = some [p.parameters] ∧
      (∃ z : Text, p.parameters.text = z ++ Text.ofString ")") ∧
      ∀ w, Reads grammar (listed {} (token ")")) (p.parameters.text ++ w) (.found k ts w) := by
  cases hp with
  | @intro _ _ _ _ k _ _ _ hparameters =>
    obtain ⟨ts, hlisted, hview⟩ := reads_adapt_found.mp (reads_ref.mp hparameters)
    have htexts : Tree.texts ts = p.parameters.text := by
      rw [← Tree.texts_of_asParameters hview, Tree.texts, Tree.texts, List.append_nil]
    have hplaced := hlisted.relocate (.inl rfl) (closes_listed {})
      (grammar_isLocal (.inl rfl) (.parameters {})) (grammar_keepsText (.parameters {})).2
    rw [htexts] at hplaced
    exact ⟨k, ts, hview, hplaced.1, hplaced.2⟩

/-- The body is read before whatever stands behind it. -/
theorem reads_body (hp : p.IsRead s rest) :
    ∃ k body, p.body = body.withRole .body ∧
      (∃ z : Text, body.text = z ++ Text.ofString "\x7d") ∧
      ∀ w, Reads grammar (ref (.block { inAsync := p.isAsync })) (body.text ++ w)
        (.found k [body] w) := by
  cases hp with
  | @intro _ _ _ _ _ k body _ _ _ hbody heq =>
    have hplaced := hbody.relocate (.inr rfl) (closes_block _) trivial keepsText_ref
    rw [Tree.texts, Tree.texts, List.append_nil] at hplaced
    exact ⟨k, body, heq, hplaced.1, hplaced.2⟩

theorem block_starts {c : Context} {s : Text} {k : Bool} {t : Tree}
    (h : Reads grammar (ref (.block c)) s (.found k [t] rest)) :
    (∃ y, s = Text.ofString "\x7b" ++ y) ∧ ∃ us, t = .node .plain .statementBlock us := by
  obtain ⟨us, hparts, heq⟩ := reads_node_found.mp (reads_ref.mp h)
  obtain ⟨_, _, _, _, _, hopen, -, -, -⟩ := reads_seq_found.mp hparts
  exact ⟨⟨_, (reads_token_found.mp hopen).1⟩, us, (List.cons.inj heq).1⟩

theorem IsRead.isBuilt (hp : p.IsRead s rest) : p.IsBuilt := by
  obtain ⟨_, ts, hview, hclose, hplaced⟩ := reads_listed_parameters hp
  obtain ⟨us, -, heq⟩ := Option.map_eq_some_iff.mp hview
  have hopen := listed_starts (hplaced [])
  rw [List.append_nil] at hopen
  obtain ⟨_, body, hbody, hend, hread⟩ := reads_body hp
  obtain ⟨hstart, vs, hvs⟩ := block_starts (hread [])
  rw [List.append_nil] at hstart
  have hbodyText : p.body.text = body.text := by rw [hbody, Tree.text_withRole]
  cases hp with
  | intro hhead _ hgap =>
    exact ⟨hhead.head, ⟨us, (List.cons.inj heq).1.symm⟩, Text.enclosed hopen hclose (by decide),
      areGaps_of_gap hgap, ⟨vs, by rw [hbody, hvs]; rfl⟩,
      by rw [hbodyText]; exact Text.enclosed hstart hend (by decide)⟩

end FunctionParts

/-! ## Regularity -/

variable {code : Text} {f : Tree}

/-- If a function is all that the parentheses around a fragment hold, it is all of the fragment, and
it is read at every other place. -/
theorem reads_of_expression (hf : (parser (wrap code)).expression? = some f)
    (hform : f.form = .functionExpression) :
    ∃ (b a : Text) (k : Bool), code = b ++ (f.text ++ a) ∧ b.all Lexeme.isSpace = true ∧
      a.all Lexeme.isSpace = true ∧ f.anyForm (· == .coverInitializer) = false ∧
      (parser (wrap code)).root = Tree.wrapping (blankTrees b) f (blankTrees a) ∧
      ∀ w, Reads grammar (ref .functionLiteral) (f.text ++ w) (.found k [f] w) := by
  obtain ⟨herror, hroute⟩ := Script.expression?_eq_some.mp hf
  obtain ⟨script, hparse, hroot⟩ := parser_hasError.mp herror
  obtain ⟨⟨_, hread⟩, hcover⟩ := parse_eq_some.mp hparse
  rw [hroot] at hroute ⊢
  obtain ⟨route, honly⟩ := hroute
  obtain ⟨b, a, _, rfl, hb, ha, hexpression, rfl⟩ :=
    reads_wrapped hread route honly (by simp [hform])
  rw [Tree.anyForm_wrapping] at hcover
  have hliteral := traces_function (by decide) (by decide) hexpression hform
  exact ⟨b, a, _, rfl, hb, ha, hcover, rfl, (FunctionParts.relocate_function hliteral).2⟩

theorem areGaps_blankTrees {x : Text} (hx : x.all Lexeme.isSpace = true) :
    AreGaps (blankTrees x) := by
  cases x with
  | nil => exact fun _ ht => absurd ht nofun
  | cons c x => exact List.forall_mem_singleton.mpr (.blank hx)

theorem parser_regularOn (code : Text) : parser.RegularOn code where
  covers herror := by
    obtain ⟨script, hparse, hroot⟩ := parser_hasError.mp herror
    obtain ⟨⟨_, hread⟩, -⟩ := parse_eq_some.mp hparse
    have htext := hread.texts grammar_keepsText keepsText_ref
    simpa [Tree.texts, hroot] using htext
  operation herror route := by
    obtain ⟨script, hparse, rfl⟩ := parser_hasError.mp herror
    obtain ⟨⟨_, hread⟩, -⟩ := parse_eq_some.mp hparse
    obtain ⟨_, _, _, _, _, _, -, -, -, -, -, -, hoperation, -⟩ := reads_route hread route
    exact .inl (by rw [hoperation]; rfl)
  produced herror route f hf hform := by
    obtain ⟨b, a, _, -, hb, ha, -, hroot, hread⟩ :=
      reads_of_expression (Script.expression?_eq_some.mpr ⟨herror, route, hf⟩) hform
    obtain ⟨p, rfl, hp⟩ := reads_function (hread []) hform
    clear herror
    generalize (parser (wrap code)).root = script at route hroot ⊢
    subst hroot
    obtain ⟨statement, operation, operand, hstatement, -, hoperation, hargument, -⟩ := route
    cases hstatement
    cases hoperation
    cases hargument
    simp only [List.forall_mem_cons, List.not_mem_nil, false_implies, implies_true, and_true]
    have hnone : AreGaps [] := fun _ ht => absurd ht nofun
    exact ⟨.program (List.forall_mem_singleton.mpr (.inr rfl)), .terminated (g := []) rfl hnone,
      .unary (g := []) (by decide) hnone,
      .parenthesized (areGaps_blankTrees hb) (areGaps_blankTrees ha) rfl, .function hp.isBuilt⟩

/-! ## Uniformity -/

namespace FunctionParts

variable {p : FunctionParts} {s rest : Text}

theorem arrowText_starts (h : p.IsBuilt) (w : Text) (fresh : Bool) :
    Lexeme.blank fresh (p.arrowText ++ w) = none := by
  obtain ⟨x, hx⟩ := h.parentheses
  rw [arrowText, hx]
  cases p.isAsync <;> cases fresh <;> rfl

theorem gap_arrow (x : Text) : gap? (Text.ofString " => " ++ x) =
    some ([.leaf .plain .blank " "], Text.ofString "=> " ++ x) :=
  gap?_blanks (b := Text.ofString " ") (s := Text.ofString "=> " ++ x) rfl
    fun fresh => by cases fresh <;> rfl

/-- The body is read behind the arrow. -/
theorem reads_arrowStep (hp : p.IsRead s rest) (w : Text) :
    ∃ k, Reads grammar (arrowStep p.isAsync) (Text.ofString " => " ++ (p.body.text ++ w))
      (.found k [.node .plain .arrowFunction [.leaf .plain .blank " ", .leaf .plain .token "=>",
        .leaf .plain .blank " ", p.body]] w) := by
  obtain ⟨k, body, hbody, -, hread⟩ := reads_body hp
  have hblock := hread w
  rw [hbody, Tree.text_withRole]
  have hbrace : ∀ fresh, Lexeme.blank fresh (body.text ++ w) = none := by
    obtain ⟨⟨y, hy⟩, -⟩ := block_starts hblock
    rw [hy]
    exact fun fresh => by cases fresh <;> rfl
  have hline : Reads grammar lineGap _ (.found false _ _) :=
    reads_blanks_found.mpr ⟨rfl, gap_arrow (body.text ++ w), rfl⟩
  have hmark : Reads grammar (token "=>") (Text.ofString "=> " ++ (body.text ++ w))
      (.found true [.leaf .plain .token "=>"] (Text.ofString " " ++ (body.text ++ w))) :=
    reads_token _ _
  have hgap : gap? (Text.ofString " " ++ (body.text ++ w)) =
      some ([.leaf .plain .blank " "], body.text ++ w) := gap?_blanks rfl hbrace
  exact ⟨_, .node (hline.seq (hmark.seq ((reads_gap hgap).seq hblock.alt_left.role)))⟩

theorem startsOperand_async (x : Text) : StartsOperand (Text.ofString "async (" ++ x) where
  yield := .absent_of_run 20 rfl
  asyncArrow := .absent_of_run 20 rfl
  operator := .absent_of_run 20 rfl
  metaProperty := .absent_of_run 20 rfl
  construction := .absent_of_run 20 rfl

theorem reads_primary_async (x : Text) :
    Reads grammar (ref (.primary {})) (Text.ofString "async (" ++ x)
      (.found false [.leaf .plain .identifier "async"] (Text.ofString " (" ++ x)) := by
  have hfunction : Reads grammar (ref .functionLiteral) (Text.ofString "async (" ++ x) .absent :=
    .absent_of_run 20 rfl
  have hname : Reads grammar (unlessOperator {} identifier) (Text.ofString "async (" ++ x)
      (.found false [.leaf .plain .identifier "async"] (Text.ofString " (" ++ x)) :=
    .found_of_run 20 rfl
  exact .ref ((Reads.alt_right hfunction).mpr hname.alt_left)

/-- The head of an arrow function, as the expression that it is read as first. -/
theorem reads_arrowHead (hp : p.IsRead s rest) (w : Text) : ∃ k t,
    StartsOperand
      ((if p.isAsync then "async " else "") ++ (p.parameters.text ++ (Text.ofString " => " ++ w))) ∧
    Reads grammar (ref (.conditional {}))
      ((if p.isAsync then "async " else "") ++ (p.parameters.text ++ (Text.ofString " => " ++ w)))
      (.found k [t] (Text.ofString " => " ++ w)) ∧
    t.asyncParameters?.isSome = p.isAsync ∧
    t.asArrowHead = some
      ((if p.isAsync then [.leaf .plain .token "async", .leaf .plain .blank " "] else []) ++
        [p.parameters]) := by
  obtain ⟨k, ts, hview, -, hlisted⟩ := reads_listed_parameters hp
  have hread := hlisted (Text.ofString " => " ++ w)
  have hends : EndsOperand (Text.ofString " => " ++ w) :=
    (endsOperand_arrow (Text.ofString " " ++ w)).of_gap (gap_arrow w)
  obtain ⟨x, hx⟩ := listed_starts hread
  rw [hx] at hread ⊢
  cases hasync : p.isAsync with
  | false =>
    have hparentheses := reads_parentheses_of_listed hread (.found_of_run 20 rfl)
    have hs := startsOperand_parenthesis x
    have hchain := reads_chain hs (reads_primary_parentheses hparentheses) (.stop hends.chain)
    exact ⟨_, _, hs, reads_conditional (reads_unary hs hchain hends) hends, rfl, hview⟩
  | true =>
    obtain ⟨k', harguments⟩ := reads_arguments_of_listed hread
    have hgap : gap? (Text.ofString " (" ++ x) =
        some ([.leaf .plain .blank " "], Text.ofString "(" ++ x) :=
      gap?_blanks (b := Text.ofString " ") (s := Text.ofString "(" ++ x) rfl
        fun fresh => by cases fresh <;> rfl
    have hcall : Reads grammar chainStep (Text.ofString " (" ++ x) (.found _ _ _) :=
      .alt_left (.node ((reads_gap hgap).seq harguments))
    have hs := startsOperand_async x
    have hchain := reads_chain hs (reads_primary_async x) (.next hcall rfl (.stop hends.chain))
    obtain ⟨us, hus, hp'⟩ := Option.map_eq_some_iff.mp hview
    refine ⟨_, _, hs, reads_conditional (reads_unary hs hchain hends) hends, rfl, ?_⟩
    change (Tree.asTargets true (Tree.unsequencedAll ts)).map _ = _
    rw [hus, ← hp']
    rfl

/-- The function is read as an arrow function where it is written as one. -/
theorem reads_arrow (hp : p.IsRead s rest) : ∃ k,
    Reads grammar (ref (.expression {})) (p.arrowText ++ Text.ofString ");")
      (.found k [p.arrow] (Text.ofString ");")) := by
  obtain ⟨k, t, hs, hhead, hasync, harrowHead⟩ :=
    reads_arrowHead hp (p.body.text ++ Text.ofString ");")
  obtain ⟨k', hstep⟩ := reads_arrowStep hp (Text.ofString ");")
  rw [← hasync] at hstep
  have hends : EndsExpression (Text.ofString ");") := endsExpression_close (Text.ofString ";")
  have hassignment : Reads grammar assignmentStep
      (Text.ofString " => " ++ (p.body.text ++ Text.ofString ");")) .absent :=
    SkipsGap.absent (.alt (.node (.seq rfl)) (.node (.seq rfl))) (gap_arrow _)
      (assignmentStep_absent_arrow (Text.ofString " " ++ (p.body.text ++ Text.ofString ");")))
  have htext : p.arrowText ++ Text.ofString ");" = (if p.isAsync then "async " else "") ++
      (p.parameters.text ++ (Text.ofString " => " ++ (p.body.text ++ Text.ofString ");"))) := by
    simp [arrowText]
  have hoperation := Fragment.reads_arrow (v := p.arrow) hhead hassignment hstep
    (by simp [Tree.attach, harrowHead, arrow]) hends
  rw [htext]
  exact ⟨_, reads_expression hs.yield hs.asyncArrow hoperation hends⟩

theorem isCovered_arrow (h : p.tree.anyForm (· == .coverInitializer) = false) :
    p.arrow.anyForm (· == .coverInitializer) = false := by
  simp only [tree, Tree.anyForm, Tree.anyForms, Tree.anyForms_append, Bool.or_eq_false_iff] at h
  obtain ⟨-, -, hparameters, -, hbody, -⟩ := h
  have hasync : ∀ isAsync : Bool, Tree.anyForms (· == .coverInitializer)
      (if isAsync then [.leaf .plain .token "async", .leaf .plain .blank " "] else []) = false := by
    rintro (_ | _) <;> rfl
  simp [arrow, Tree.anyForm, Tree.anyForms, Tree.isCovered, hparameters, hbody, hasync]

end FunctionParts

theorem FunctionParts.eq_of_tree {p q : FunctionParts} (hp : p.IsBuilt) (hq : q.IsBuilt)
    (h : p.tree = q.tree) : p.arrow = q.arrow ∧ p.arrowText = q.arrowText := by
  have hasync : p.isAsync = q.isAsync := by rw [← any_async hp, ← any_async hq, h]
  have hparameters : p.parameters = q.parameters :=
    Option.some.inj ((child?_parameters hp).symm.trans (h ▸ child?_parameters hq))
  have hbody : p.body = q.body := Option.some.inj ((child?_body hp).symm.trans (h ▸ child?_body hq))
  simp only [arrow, arrowText, hasync, hparameters, hbody, and_self]

theorem parser_uniformOn (code : Text) : parser.UniformOn code where
  strip f hf hform := by
    obtain ⟨b, a, _, rfl, hb, ha, hcover, -, hread⟩ := reads_of_expression hf hform
    obtain ⟨p, rfl, hp⟩ := reads_function (hread []) hform
    obtain ⟨⟨c, y, hfirst, hc⟩, z, hlast⟩ := FunctionParts.text_ends hp.isBuilt
    have hstrip : Text.strip (b ++ (p.tree.text ++ a)) =
        b.dropWhile CodePoint.isBlank ++ (p.tree.text ++ a.stripEnd) :=
      Text.strip_append hfirst (by rcases hc with rfl | rfl <;> rfl) hlast rfl
    have hbefore : (b.dropWhile CodePoint.isBlank).all Lexeme.isSpace = true :=
      List.all_eq_true.mpr fun c hc =>
        List.all_eq_true.mp hb c ((List.dropWhile_suffix _).subset hc)
    have hafter : a.stripEnd.all Lexeme.isSpace = true := by
      refine List.all_eq_true.mpr fun c hc => List.all_eq_true.mp ha c ?_
      exact List.mem_reverse.mp ((List.dropWhile_suffix _).subset (List.mem_reverse.mp hc))
    obtain ⟨_, hexpression⟩ := FunctionParts.reads_expression_function (hread []) hafter
    rw [hstrip, parser_eq (parse_wrapping hbefore hafter
      (FunctionParts.blank_function (hread []) _) hexpression hcover)]
    exact Tree.wrapped?_wrapping rfl
  arrow p hp hf := by
    obtain ⟨_, _, _, -, -, -, hcover, -, hread⟩ := reads_of_expression hf rfl
    obtain ⟨q, hq, hparts⟩ := reads_function (hread []) rfl
    obtain ⟨harrow, htext⟩ := FunctionParts.eq_of_tree hp hparts.isBuilt hq
    rw [harrow, htext]
    obtain ⟨_, hexpression⟩ := FunctionParts.reads_arrow hparts
    have hparse : parse (wrap ([] ++ (q.arrowText ++ []))) = some _ :=
      parse_wrapping rfl rfl (FunctionParts.arrowText_starts hparts.isBuilt _) hexpression
        (FunctionParts.isCovered_arrow (hq ▸ hcover))
    rw [List.nil_append, List.append_nil] at hparse
    rw [parser_eq hparse]
    exact Tree.negates_wrapping rfl rfl

end CompositeScript.Fragment
