import CompositeScript.Proofs.ArrowForm

/-!
The names of a function that is written as an arrow function.

Parameter list and body are copied, and a uniform parser reads them as the same trees in their new
place. Only the name of the function itself is lost: where the function refers to itself by it, the
arrow function refers to something else.
-/

namespace CompositeScript.Fragment

namespace FunctionParts

open Fragment.Tree

variable {p : FunctionParts} {n : Text} {b : Bool}

/-! ## Names in a function -/

/-- A child of a function or of an arrow function. Only a name of its own, or a single parameter,
declares. -/
theorem childPlace_function {r : Role} {g : Form} {us : List Tree} {c : Tree}
    (hg : g = .functionExpression ∨ g = .arrowFunction) (hname : c.role ≠ .name)
    (hparameter : c.role ≠ .parameter) : childPlace (node r g us) false c = some false := by
  rcases hg with rfl | rfl <;>
    simp [childPlace, form, Form.isDefinition, Form.isDefaulted, declaresIn_eq, hname, hparameter]

theorem not_occurs_areGaps {g us : List Tree} {r : Role} {f : Form} (hg : AreGaps g) :
    ¬ ∃ c ∈ g, ∃ d', childPlace (node r f us) false c = some d' ∧ Occurs c d' n b :=
  fun ⟨c, hc, _, _, hoccurs⟩ => not_occurs_isMark (hg c hc).isMark hoccurs

/-- Before its parameters a function declares its own name, and that is all. -/
theorem occurs_head {isAsync : Bool} {own : Option Text} {head us : List Tree} {r : Role}
    (h : Head isAsync own head) :
    (∃ c ∈ head, ∃ d', childPlace (node r .functionExpression us) false c = some d' ∧
      Occurs c d' n b) ↔ b = true ∧ own = some n := by
  have htoken : ∀ x, ¬ ∃ d', childPlace (node r .functionExpression us) false
      (leaf .plain .token x) = some d' ∧ Occurs (leaf .plain .token x) d' n b :=
    fun _ ⟨_, _, hoccurs⟩ => not_occurs_leaf rfl hoccurs
  have hname : ∀ x, (∃ d', childPlace (node r .functionExpression us) false
      (leaf .name .identifier x) = some d' ∧ Occurs (leaf .name .identifier x) d' n b) ↔
        b = true ∧ x = n := by
    intro x
    have hplace : childPlace (node r .functionExpression us) false (leaf .name .identifier x) =
        some true := rfl
    simp only [hplace, Option.some.injEq, exists_eq_left']
    rw [occurs_of_counts (t := leaf .name .identifier x) (d := true) rfl, text, and_comm,
      @eq_comm _ n]
  induction h with
  | plain hg =>
    simp only [List.mem_cons, or_and_right, exists_or, exists_eq_left, htoken,
      not_occurs_areGaps hg, reduceCtorEq, and_false, or_self]
  | named hg hg' =>
    simp only [List.mem_cons, List.mem_append, or_and_right, exists_or, exists_eq_left, htoken,
      not_occurs_areGaps hg, not_occurs_areGaps hg', hname, false_or, or_false, Option.some.injEq]
  | async hg _ ih =>
    simp only [List.mem_cons, List.mem_append, or_and_right, exists_or, exists_eq_left, htoken,
      not_occurs_areGaps hg, ih, false_or]

/-- A function has the names of its parameters and its body, and declares its own name. -/
theorem occurs_tree (hp : p.IsBuilt) : Occurs p.tree false n b ↔
    (b = true ∧ p.own = some n) ∨ Occurs p.parameters false n b ∨ Occurs p.body false n b := by
  obtain ⟨ts, hparameters⟩ := hp.parameters
  obtain ⟨us, hbody⟩ := hp.body
  have hplace : ∀ {vs : List Tree} {t : Tree}, t.role ≠ .name → t.role ≠ .parameter →
      childPlace (node .plain .functionExpression vs) false t = some false :=
    childPlace_function (.inl rfl)
  rw [tree, occurs_of_not_counts rfl]
  simp only [children, List.mem_append, List.mem_cons, List.not_mem_nil, or_false, or_and_right,
    exists_or, exists_eq_left, occurs_head hp.head, not_occurs_areGaps hp.between, false_or,
    hplace (show p.parameters.role ≠ .name by simp [hparameters]) (by simp [hparameters]),
    hplace (show p.body.role ≠ .name by simp [hbody]) (by simp [hbody]), Option.some.injEq,
    exists_eq_left']

/-- The arrow function has the names of the parameters and of the body. -/
theorem occurs_arrow (hp : p.IsBuilt) :
    Occurs p.arrow false n b ↔ Occurs p.parameters false n b ∨ Occurs p.body false n b := by
  obtain ⟨ts, hparameters⟩ := hp.parameters
  obtain ⟨us, hbody⟩ := hp.body
  have hplace : ∀ {vs : List Tree} {t : Tree}, t.role ≠ .name → t.role ≠ .parameter →
      childPlace (node .plain .arrowFunction vs) false t = some false :=
    childPlace_function (.inr rfl)
  have hleaf : ∀ {vs : List Tree} {f : Form} (x : Text), passes f = true → ¬ ∃ d',
      childPlace (node .plain .arrowFunction vs) false (leaf .plain f x) = some d' ∧
        Occurs (leaf .plain f x) d' n b :=
    fun x hf ⟨_, _, hoccurs⟩ => not_occurs_leaf hf hoccurs
  have hmark : ∀ {vs : List Tree}, ¬ ∃ c ∈ (if p.isAsync then
      [leaf .plain .token (Text.ofString "async"), leaf .plain .blank " "] else []), ∃ d',
      childPlace (node .plain .arrowFunction vs) false c = some d' ∧ Occurs c d' n b := by
    rintro vs ⟨c, hc, d', -, hoccurs⟩
    split at hc
    · simp only [List.mem_cons, List.not_mem_nil, or_false] at hc
      rcases hc with rfl | rfl <;> exact not_occurs_leaf rfl hoccurs
    · cases hc
  rw [arrow, occurs_of_not_counts rfl]
  simp only [children, List.mem_append, List.mem_cons, List.not_mem_nil, or_false, or_and_right,
    exists_or, exists_eq_left, hmark, false_or, hleaf _ (show passes .blank by rfl),
    hleaf _ (show passes .token by rfl),
    hplace (show p.parameters.role ≠ .name by simp [hparameters]) (by simp [hparameters]),
    hplace (show p.body.role ≠ .name by simp [hbody]) (by simp [hbody]), Option.some.injEq,
    exists_eq_left']

theorem mem_freeNames_tree (hp : p.IsBuilt) :
    n ∈ p.tree.freeNames ↔ n ∈ p.arrow.freeNames ∧ p.own ≠ some n := by
  simp only [Tree.mem_freeNames, occurs_tree hp, occurs_arrow hp]
  grind

theorem isBlank_arrowText : p.arrowText.isBlank = false := by
  rw [Text.isBlank, List.all_eq_false]
  exact ⟨'=', by simp [arrowText, Text.ofString], by decide⟩

theorem Fills.isBlank {code : Text} (h : p.Fills code) : code.isBlank = false := by
  obtain ⟨⟨c, y, hfirst, hc⟩, -⟩ := text_ends h.isBuilt
  obtain ⟨b, a, -, -, rfl⟩ := h.text
  rw [Text.isBlank, List.all_eq_false]
  exact ⟨c, by simp [hfirst], by rcases hc with rfl | rfl <;> decide⟩

end FunctionParts

/-- The name a function gives itself. -/
def Tree.ownName? (function : Tree) : Option Text := (function.child? .name).map Tree.text

namespace FunctionParts

variable {p : FunctionParts}

theorem find?_name {isAsync : Bool} {own : Option Text} {head : List Tree}
    (h : Head isAsync own head) : (head.find? (·.role == .name)).map Tree.text = own := by
  have hgaps : ∀ {g}, AreGaps g → g.find? (·.role == .name) = none :=
    fun hg => hg.find?_role nofun
  induction h with
  | plain hg => simp [hgaps hg]
  | named hg => simp [List.find?_append, hgaps hg, Tree.text]
  | async hg _ ih => simp [List.find?_append, hgaps hg, ih]

theorem ownName?_tree (hp : p.IsBuilt) : p.tree.ownName? = p.own := by
  obtain ⟨ts, hparameters⟩ := hp.parameters
  obtain ⟨us, hbody⟩ := hp.body
  have hothers : (p.parameters :: (p.between ++ [p.body])).find? (·.role == .name) = none := by
    simp [List.find?_append, hp.between.find?_role, hparameters, hbody]
  rw [Tree.ownName?, Tree.child?, tree, Tree.children, List.find?_append, hothers, Option.or_none,
    find?_name hp.head]

end FunctionParts

/-! ## The names of both -/

/-- A function written as an arrow function refers to what it referred to before, and to nothing
else but the name that the function gave itself. -/
theorem freeNames_of_toArrow {parser : Parser} {code : Text} {f : Tree}
    (hsurrogate : code.hasSurrogate = false) (hregular : parser.RegularOn code)
    (huniform : parser.UniformOn code) (hf : (parser (wrap code)).expression? = some f)
    (hform : f.form = .functionExpression) :
    ∃ arrow names names', toArrow parser code = .ok arrow ∧ f.toArrow? = some arrow ∧
      freeNames parser code = .ok names ∧ freeNames parser arrow = .ok names' ∧
      ∀ n, n ∈ names ↔ n ∈ names' ∧ f.ownName? ≠ some n := by
  obtain ⟨hnegates, p, rfl, hp⟩ := hregular.exists_fills hf hform
  have harrow := FunctionParts.hasSurrogate_arrowText (hp.hasSurrogate hsurrogate)
  refine ⟨p.arrowText, _, _,
    toArrow_of_isBuilt hsurrogate (huniform.strip _ hf hform) hp.isBuilt,
    FunctionParts.toArrow?_tree hp.isBuilt, freeNames_eq_ok parser hsurrogate hp.isBlank,
    freeNames_eq_ok parser harrow FunctionParts.isBlank_arrowText, fun n => ?_⟩
  rw [hnegates.mem_freeNames, (huniform.arrow p hp.isBuilt hf).mem_freeNames,
    FunctionParts.ownName?_tree hp.isBuilt, FunctionParts.mem_freeNames_tree hp.isBuilt]

/-- The parts of `async function f({ a }, b = c) { return f(b); }`. -/
def asyncRecursion : FunctionParts where
  isAsync := true
  own := some "f"
  head := [.leaf .plain .token "async", .leaf .plain .blank " ", .leaf .plain .token "function",
    .leaf .plain .blank " ", .leaf .name .identifier "f"]
  parameters := .node .parameters .formalParameters [.leaf .plain .token "(",
    .node .plain .objectPattern [.leaf .plain .token "\x7b", .leaf .plain .blank " ",
      .leaf .plain .shorthandPattern "a", .leaf .plain .blank " ", .leaf .plain .token "\x7d"],
    .leaf .plain .token ",", .leaf .plain .blank " ",
    .node .plain .assignmentPattern [.leaf .left .identifier "b", .leaf .plain .blank " ",
      .leaf .plain .token "=", .leaf .plain .blank " ", .leaf .right .identifier "c"],
    .leaf .plain .token ")"]
  between := [.leaf .plain .blank " "]
  body := .node .body .statementBlock [.leaf .plain .token "\x7b", .leaf .plain .blank " ",
    .node .plain .statement [.leaf .plain .token "return", .leaf .plain .blank " ",
      .node .plain .call [.leaf .plain .identifier "f",
        .node .plain .arguments [.leaf .plain .token "(", .leaf .plain .identifier "b",
          .leaf .plain .token ")"]],
      .leaf .plain .token ";"],
    .leaf .plain .blank " ", .leaf .plain .token "\x7d"]

set_option maxRecDepth 100000 in
theorem freeNames_asyncRecursion : ∃ names names',
    toArrow Fragment.parser "async function f(\x7b a \x7d, b = c) \x7b return f(b); \x7d" =
      .ok "async (\x7b a \x7d, b = c) => \x7b return f(b); \x7d" ∧
    freeNames Fragment.parser "async function f(\x7b a \x7d, b = c) \x7b return f(b); \x7d" =
      .ok names ∧
    freeNames Fragment.parser "async (\x7b a \x7d, b = c) => \x7b return f(b); \x7d" =
      .ok names' ∧
    ∀ n, n ∈ names ↔ n ∈ names' ∧ some (Text.ofString "f") ≠ some n := by
  have hparse : parse (wrap "async function f(\x7b a \x7d, b = c) \x7b return f(b); \x7d") =
      some (.wrapping [] asyncRecursion.tree []) := by decide +kernel
  have hexpression : (Fragment.parser
      (wrap "async function f(\x7b a \x7d, b = c) \x7b return f(b); \x7d")).expression? =
        some asyncRecursion.tree := by
    rw [parser_eq hparse]
    rfl
  obtain ⟨arrow, names, names', harrow, htext, hnames, hnames', hmem⟩ :=
    freeNames_of_toArrow rfl (parser_regularOn _) (parser_uniformOn _) hexpression rfl
  obtain rfl : arrow = Text.ofString "async (\x7b a \x7d, b = c) => \x7b return f(b); \x7d" :=
    Option.some.inj (htext.symm.trans (by decide +kernel))
  exact ⟨names, names', harrow, hnames, hnames', hmem⟩

/-- The parts of `function f() { return f(); }`. -/
def recursion : FunctionParts where
  isAsync := false
  own := some "f"
  head := [.leaf .plain .token "function", .leaf .plain .blank " ", .leaf .name .identifier "f"]
  parameters := .node .parameters .formalParameters [.leaf .plain .token "(",
    .leaf .plain .token ")"]
  between := [.leaf .plain .blank " "]
  body := .node .body .statementBlock [.leaf .plain .token "\x7b", .leaf .plain .blank " ",
    .node .plain .statement [.leaf .plain .token "return", .leaf .plain .blank " ",
      .node .plain .call [.leaf .plain .identifier "f",
        .node .plain .arguments [.leaf .plain .token "(", .leaf .plain .token ")"]],
      .leaf .plain .token ";"],
    .leaf .plain .blank " ", .leaf .plain .token "\x7d"]

set_option maxRecDepth 100000 in
/-- A function that calls itself by its name calls something else as an arrow function. -/
theorem freeNames_recursion : ∃ names names',
    toArrow Fragment.parser "function f() \x7b return f(); \x7d" =
      .ok "() => \x7b return f(); \x7d" ∧
    freeNames Fragment.parser "function f() \x7b return f(); \x7d" = .ok names ∧
    freeNames Fragment.parser "() => \x7b return f(); \x7d" = .ok names' ∧
    Text.ofString "f" ∈ names' ∧ Text.ofString "f" ∉ names := by
  have hparse : parse (wrap "function f() \x7b return f(); \x7d") =
      some (.wrapping [] recursion.tree []) := by decide +kernel
  have hparse' : parse (wrap "() => \x7b return f(); \x7d") =
      some (.wrapping [] recursion.arrow []) := by decide +kernel
  have hnames : Text.ofString "f" ∉
      Tree.freeNames (parser (wrap "function f() \x7b return f(); \x7d")).root := by
    rw [parser_eq hparse]
    exact fun h => (Tree.mem_freeNames.mp h).2 (Tree.mem_names.mp (by decide +kernel))
  have hnames' : Text.ofString "f" ∈
      Tree.freeNames (parser (wrap "() => \x7b return f(); \x7d")).root := by
    rw [parser_eq hparse']
    exact Tree.mem_freeNames.mpr ⟨Tree.mem_names.mp (by decide +kernel),
      fun h => absurd (Tree.mem_names.mpr h) (by decide +kernel)⟩
  have harrow : toArrow Fragment.parser "function f() \x7b return f(); \x7d" =
      .ok "() => \x7b return f(); \x7d" := by
    rw [toArrow_eq_ok _ rfl, show Text.strip "function f() \x7b return f(); \x7d" =
      Text.ofString "function f() \x7b return f(); \x7d" by decide +kernel, parser_eq hparse]
    exact congrArg Except.ok (by decide +kernel)
  exact ⟨_, _, harrow, freeNames_eq_ok _ rfl rfl, freeNames_eq_ok _ rfl rfl, hnames', hnames⟩

end CompositeScript.Fragment
