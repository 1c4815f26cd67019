import CompositeScript.Proofs.Fragment.Conversion
import CompositeScript.Emitter.Function

/-!
The arrow form of a fragment.

A fragment gets it if and only if the parser makes a single function of it, and then nothing of the
function is lost but the words before its parameters and the gap behind them. What has the arrow
form is no function any more, so a fragment is changed only once. Both hold for every parser that is
regular on the fragments it is given.
-/

namespace CompositeScript.Fragment

/-- Ways in which a fragment can be something else than a single function. -/
inductive IsNoFunction (parser : Parser) (code : Text) : Prop
  /-- It cannot be read in parentheses. -/
  | unread : (parser (wrap code)).hasError = true → IsNoFunction parser code
  /-- It closes the parentheses around it itself, so that they do not hold all of it. -/
  | escapes : (∀ t, (parser (wrap code)).root.operand? = some t →
      t.text ≠ Text.ofString "(" ++ (code ++ Text.ofString ")")) → IsNoFunction parser code
  /-- A comment stands in the parentheses, beside the function. -/
  | comment {t c : Tree} : (parser (wrap code)).root.operand? = some t → c ∈ t.children →
      c.form = .comment → IsNoFunction parser code
  /-- The function is a generator. -/
  | generator {f : Tree} : (parser (wrap code)).root.wrapped? = some f →
      f.form = .generatorExpression → IsNoFunction parser code

variable {parser : Parser} {code : Text} {f : Tree}

theorem IsNoFunction.form_ne (hno : IsNoFunction parser code) (hparser : parser.RegularOn code)
    (hf : (parser (wrap code)).expression? = some f) : f.form ≠ .functionExpression := by
  intro hform
  obtain ⟨herror, route, honly⟩ := Script.expression?_eq_some.mp hf
  cases hno with
  | unread h =>
    rw [h] at herror
    cases herror
  | escapes h =>
    obtain ⟨-, htext, -⟩ := hparser.fills herror route honly hform
    exact h _ (Tree.operand?_eq_some.mpr ⟨route, rfl⟩) htext
  | @comment t c ht hc hcomment =>
    obtain rfl : route.operand = t :=
      Option.some.inj ((Tree.operand?_eq_some.mpr ⟨route, rfl⟩).symm.trans ht)
    have hmem : c ∈ route.operand.children.filter Tree.isNamed :=
      List.mem_filter.mpr ⟨hc, by simp [Tree.isNamed, hcomment]⟩
    rw [Tree.onlyChild?_eq_some.mp honly, List.mem_singleton] at hmem
    rw [hmem, hform] at hcomment
    cases hcomment
  | @generator g hg hgenerator =>
    obtain rfl : f = g :=
      Option.some.inj ((Tree.wrapped?_eq_some.mpr ⟨route, honly⟩).symm.trans hg)
    rw [hform] at hgenerator
    cases hgenerator

theorem Tree.form_of_toArrow? {arrow : Text} (h : f.toArrow? = some arrow) :
    f.form = .functionExpression := by
  by_contra hform
  simp [Tree.toArrow?, hform] at h

/-- A fragment that is a function is written from the parts of the function. -/
theorem toArrow_of_isBuilt {p : FunctionParts} (hsurrogate : code.hasSurrogate = false)
    (hf : (parser (wrap code.strip)).expression? = some p.tree) (hp : p.IsBuilt) :
    toArrow parser code = .ok p.arrowText := by
  simp [toArrow_eq_ok parser hsurrogate, hf, FunctionParts.toArrow?_tree hp]

/-- Any other fragment stays as it is. -/
theorem toArrow_eq_strip (hsurrogate : code.hasSurrogate = false)
    (h : ∀ f, (parser (wrap code.strip)).expression? = some f → f.form ≠ .functionExpression) :
    toArrow parser code = .ok code.strip := by
  have hnone : (parser (wrap code.strip)).expression?.bind Tree.toArrow? = none := by
    by_contra hsome
    obtain ⟨arrow, harrow⟩ := Option.ne_none_iff_exists'.mp hsome
    obtain ⟨f, hf, hconverted⟩ := Option.bind_eq_some_iff.mp harrow
    exact h f hf (Tree.form_of_toArrow? hconverted)
  rw [toArrow_eq_ok parser hsurrogate, hnone, Option.getD_none]

/-- A fragment that is read as a single function is made up of the parts of this function and white
space, and is written from its parameters and its body as they stand. Any other fragment stays as it
is. -/
theorem toArrow_keeps_code (hsurrogate : code.hasSurrogate = false)
    (hparser : parser.RegularOn code.strip) :
    (∀ f, (parser (wrap code.strip)).expression? = some f → f.form = .functionExpression →
      ∃ p : FunctionParts, p.tree = f ∧ p.Fills code.strip ∧ toArrow parser code =
        .ok ((if p.isAsync then "async " else "") ++ p.parameters.text ++ " => " ++ p.body.text)) ∧
    ((∀ f, (parser (wrap code.strip)).expression? = some f → f.form ≠ .functionExpression) →
      toArrow parser code = .ok code.strip) ∧
    (IsNoFunction parser code.strip → toArrow parser code = .ok code.strip) := by
  refine ⟨fun f hf hform => ?_, toArrow_eq_strip hsurrogate, fun hno => ?_⟩
  · obtain ⟨-, p, rfl, hp⟩ := hparser.exists_fills hf hform
    exact ⟨p, rfl, hp, toArrow_of_isBuilt hsurrogate hf hp.isBuilt⟩
  · exact toArrow_eq_strip hsurrogate fun f hf => hno.form_ne hparser hf

/-- The tree of `async/**/function f(a) {}`. -/
def commentedFunction : Tree :=
  .node .plain .functionExpression [.leaf .plain .token "async", .leaf .plain .comment "/**/",
    .leaf .plain .token "function", .leaf .plain .blank " ", .leaf .name .identifier "f",
    .node .parameters .formalParameters [.leaf .plain .token "(", .leaf .plain .identifier "a",
      .leaf .plain .token ")"],
    .leaf .plain .blank " ",
    .node .body .statementBlock [.leaf .plain .token "\x7b", .leaf .plain .token "\x7d"]]

set_option maxRecDepth 100000 in
theorem expression?_commentedFunction :
    (Fragment.parser (wrap (Text.strip " async/**/function f(a) \x7b\x7d\n"))).expression? =
      some commentedFunction := by
  have hparse : parse (wrap (Text.strip " async/**/function f(a) \x7b\x7d\n")) =
      some (.wrapping [] commentedFunction []) := by decide +kernel
  rw [parser_eq hparse]
  rfl

set_option maxRecDepth 100000 in
/-- The comment is lost with the words around it. A fragment that closes the parentheses around it
stays as it is. -/
theorem toArrow_keeps_code_in_comments :
    toArrow Fragment.parser " async/**/function f(a) \x7b\x7d\n" = .ok "async (a) => \x7b\x7d" ∧
    toArrow Fragment.parser " 0)(function f() \x7b\x7d" = .ok "0)(function f() \x7b\x7d" := by
  constructor
  · obtain ⟨p, htree, hp, harrow⟩ := (toArrow_keeps_code rfl (parser_regularOn _)).1
      commentedFunction expression?_commentedFunction rfl
    have htext : p.arrowText = Text.ofString "async (a) => \x7b\x7d" := by
      have := FunctionParts.toArrow?_tree hp.isBuilt
      rw [htree] at this
      exact (Option.some.inj this).symm
    rw [harrow]
    exact congrArg Except.ok htext
  · refine (toArrow_keeps_code rfl (parser_regularOn _)).2.2 (.escapes fun t ht => ?_)
    have hnone : (Fragment.parser (wrap (Text.strip " 0)(function f() \x7b\x7d"))).root.operand? =
        none := by decide +kernel
    rw [hnone] at ht
    cases ht

/-- A text with a surrogate is refused, where another text that is no function stays as it is. -/
theorem toArrow_half_pair : toArrow Fragment.parser [.ofNat 0xDC00] = .error .notEncodable := rfl

/-! ## The arrow form of the arrow form -/

namespace FunctionParts

variable {p : FunctionParts}

theorem arrowText_eq (hp : p.IsBuilt) : ∃ x : Text, p.arrowText =
    (if p.isAsync then Text.ofString "async (" else Text.ofString "(") ++
      (x ++ Text.ofString "\x7d") := by
  obtain ⟨x, hparameters⟩ := hp.parentheses
  obtain ⟨y, hbody⟩ := hp.braces
  refine ⟨x ++ (Text.ofString ") => \x7b" ++ y), ?_⟩
  cases hasync : p.isAsync <;> simp [arrowText, hasync, hparameters, hbody, Text.ofString]

theorem arrowText_first (hp : p.IsBuilt) :
    ∃ c y, p.arrowText = c :: y ∧ c.isBlank = false ∧ Lexeme.isSpace c = false := by
  obtain ⟨x, htext⟩ := arrowText_eq hp
  cases hasync : p.isAsync with
  | false => exact ⟨'(', _, by rw [htext, hasync]; rfl, rfl, rfl⟩
  | true => exact ⟨'a', _, by rw [htext, hasync]; rfl, rfl, rfl⟩

theorem strip_arrowText (hp : p.IsBuilt) : p.arrowText.strip = p.arrowText := by
  obtain ⟨x, htext⟩ := arrowText_eq hp
  obtain ⟨c, y, hfirst, hc, -⟩ := arrowText_first hp
  have hlast : p.arrowText =
      (if p.isAsync then Text.ofString "async (" else Text.ofString "(") ++ x ++
        Text.ofString "\x7d" := by
    rw [htext, List.append_assoc]
  simpa [Text.stripEnd] using Text.strip_append (b := []) (a := []) hfirst hc hlast rfl

/-- The arrow form does not start with a function. -/
theorem not_fills_arrowText (hp : p.IsBuilt) (q : FunctionParts) : ¬ q.Fills p.arrowText := by
  rintro ⟨hq, b, a, hb, -, hcode⟩
  obtain rfl : b = [] := by
    obtain ⟨c, y, hfirst, -, hc⟩ := arrowText_first hp
    cases b with
    | nil => rfl
    | cons d b =>
      rw [(List.cons.inj (hfirst.symm.trans hcode)).1, (Bool.and_eq_true_iff.mp hb).1] at hc
      cases hc
  obtain ⟨x, htext⟩ := arrowText_eq hp
  rw [htext, List.nil_append] at hcode
  obtain ⟨y, hy | ⟨g, hg, hy⟩⟩ := text_starts hq
  · rw [hy] at hcode
    cases hasync : p.isAsync <;> rw [hasync] at hcode <;> exact absurd hcode nofun
  rw [hy] at hcode
  cases hasync : p.isAsync with
  | false =>
    rw [hasync] at hcode
    exact absurd hcode nofun
  | true =>
    -- Behind the first word there are a blank and a parenthesis here, and the next word there.
    have hbehind : Tree.texts g ++ CodePoint.ofChar 'f' :: (Text.ofString "unction" ++ (y ++ a)) =
        Text.ofString " " ++ CodePoint.ofChar '(' :: (x ++ Text.ofString "\x7d") := by
      rw [hasync] at hcode
      simpa [Text.ofString] using hcode.symm
    exact absurd (hg.eq_of_append rfl rfl rfl hbehind) (by decide)

theorem hasSurrogate_arrowText (h : p.tree.text.hasSurrogate = false) :
    p.arrowText.hasSurrogate = false := by
  rw [text_tree] at h
  simp only [Text.hasSurrogate, List.any_append, Bool.or_eq_false_iff] at h
  obtain ⟨-, hparameters, -, hbody⟩ := h
  have hasync : ∀ isAsync : Bool,
      Text.hasSurrogate (Text.ofString (if isAsync then "async " else "")) = false := by decide
  have harrow : Text.hasSurrogate " => " = false := by decide
  simp only [arrowText, Text.hasSurrogate, List.any_append, Bool.or_eq_false_iff]
  exact ⟨⟨⟨hasync _, hparameters⟩, harrow⟩, hbody⟩

theorem Fills.hasSurrogate (h : p.Fills code) (hsurrogate : code.hasSurrogate = false) :
    p.tree.text.hasSurrogate = false := by
  obtain ⟨b, a, -, -, rfl⟩ := h.text
  simp_all [Text.hasSurrogate]

end FunctionParts

theorem toArrow_strip (parser : Parser) (code : Text) :
    toArrow parser code.strip = toArrow parser code := by
  rw [toArrow, toArrow, Text.strip_strip]

theorem render_arrow {v : Value} (h : Expression.codeOf .function .expression v = .ok code) :
    Function.render parser .arrow v = toArrow parser code := by
  rw [Function.render, h]

/-- What has the arrow form keeps it, also as the text of another function. -/
theorem toArrow_toArrow (hsurrogate : code.hasSurrogate = false)
    (hcode : parser.RegularOn code.strip)
    (hresult : ∀ arrow, toArrow parser code = .ok arrow → parser.RegularOn arrow) :
    ∃ arrow, toArrow parser code = .ok arrow ∧ toArrow parser arrow = .ok arrow ∧
      (∀ v, Expression.codeOf .function .expression v = .ok code →
        Function.render parser .arrow v = .ok arrow) ∧
      Function.render parser .arrow (.tagged .function "value" (.str arrow)) = .ok arrow := by
  obtain ⟨arrow, harrow, hagain⟩ :
      ∃ arrow, toArrow parser code = .ok arrow ∧ toArrow parser arrow = .ok arrow := by
    by_cases hfunction : ∃ f, (parser (wrap code.strip)).expression? = some f ∧
        f.form = .functionExpression
    · obtain ⟨f, hf, hform⟩ := hfunction
      obtain ⟨-, p, rfl, hp⟩ := hcode.exists_fills hf hform
      have harrow := toArrow_of_isBuilt hsurrogate hf hp.isBuilt
      have hstrip := FunctionParts.strip_arrowText hp.isBuilt
      have hstays : toArrow parser p.arrowText = .ok p.arrowText.strip := by
        refine toArrow_eq_strip (FunctionParts.hasSurrogate_arrowText
          (hp.hasSurrogate (Text.strip_hasSurrogate hsurrogate))) fun g hg hform => ?_
        rw [hstrip] at hg
        obtain ⟨-, q, -, hq⟩ := (hresult _ harrow).exists_fills hg hform
        exact FunctionParts.not_fills_arrowText hp.isBuilt q hq
      rw [hstrip] at hstays
      exact ⟨p.arrowText, harrow, hstays⟩
    · have hstays : toArrow parser code = .ok code.strip :=
        toArrow_eq_strip hsurrogate fun f hf hform => hfunction ⟨f, hf, hform⟩
      exact ⟨code.strip, hstays, (toArrow_strip parser code).trans hstays⟩
  have hcode : Expression.codeOf .function .expression (.tagged .function "value" (.str arrow)) =
      .ok arrow := rfl
  exact ⟨arrow, harrow, hagain, fun v hv => (render_arrow hv).trans harrow,
    (render_arrow hcode).trans hagain⟩

set_option maxRecDepth 100000 in
/-- A function that is converted, and the arrow function that it is then. -/
theorem toArrow_toArrow_of_commented :
    toArrow Fragment.parser " async/**/function f(a) \x7b\x7d\n" = .ok "async (a) => \x7b\x7d" ∧
    toArrow Fragment.parser "async (a) => \x7b\x7d" = .ok "async (a) => \x7b\x7d" ∧
    Function.render Fragment.parser .arrow
      (.tagged .function "value" (.str "async (a) => \x7b\x7d")) = .ok "async (a) => \x7b\x7d" := by
  have hsurrogate : Text.hasSurrogate " async/**/function f(a) \x7b\x7d\n" = false := rfl
  obtain ⟨arrow, harrow, hagain, -, hrender⟩ := toArrow_toArrow hsurrogate
    (parser_regularOn _) fun _ _ => parser_regularOn _
  have hconverted : toArrow Fragment.parser " async/**/function f(a) \x7b\x7d\n" =
      .ok "async (a) => \x7b\x7d" := by
    rw [toArrow_eq_ok _ hsurrogate, expression?_commentedFunction]
    rfl
  obtain rfl : Text.ofString "async (a) => \x7b\x7d" = arrow :=
    Except.ok.inj (hconverted.symm.trans harrow)
  exact ⟨harrow, hagain, hrender⟩

end CompositeScript.Fragment
