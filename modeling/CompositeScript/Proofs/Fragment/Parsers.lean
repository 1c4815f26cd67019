import CompositeScript.Proofs.Fragment.Occurrences
import CompositeScript.Proofs.Text

/-!
What has to be known of a parser.

Nothing here depends on how a text is parsed. A parser is regular on a fragment if its leaves spell
the text and the trees on the path to a function have the children that the productions of the
language give them (`Parser.RegularOn`). Then the fragment is that function and white space, and the
function is a sequence of words, a parameter list and a body (`FunctionParts.Fills`).
-/

namespace CompositeScript.Fragment

/-! ## Gaps -/

namespace Lexeme

/-- A code point that white space or a comment starts with. -/
def startsGap (c : CodePoint) : Bool := isSpace c || c == '/' || c == '<' || c == '-'

theorem starts_of_comment {x : Text} {fresh : Bool} {n : Option Nat}
    (h : blank fresh x = some (.comment, n)) : ∃ c y, x = c :: y ∧ startsGap c = true ∧
      isSpace c = false := by
  have hmark : ∀ {c : CodePoint} {w : Text}, x.startsWith (c :: w) = true → ∃ y, x = c :: y := by
    intro c w hstart
    obtain ⟨y, rfl⟩ := List.isPrefixOf_iff_prefix.mp hstart
    exact ⟨w ++ y, rfl⟩
  unfold blank at h
  split at h
  · cases h
  split at h
  next hstart => exact ⟨_, _, (hmark hstart).choose_spec, rfl, rfl⟩
  split at h
  next hline =>
    simp only [startsLineComment, Bool.or_eq_true, Bool.and_eq_true] at hline
    rcases hline with (hstart | hstart) | ⟨-, hstart⟩ <;>
      exact ⟨_, _, (hmark hstart).choose_spec, rfl, rfl⟩
  next => cases h

end Lexeme

open Lexeme

namespace Tree.IsGap

variable {t : Tree}

theorem isMark (h : t.IsGap) : t.isMark = true := by cases h <;> rfl

theorem role (h : t.IsGap) : t.role = .plain := by cases h <;> rfl

theorem form (h : t.IsGap) : t.form = .blank ∨ t.form = .comment := by
  cases h
  · exact .inl rfl
  · exact .inr rfl

end Tree.IsGap

namespace AreGaps

variable {g : List Tree} {u v x : Text} {c d : CodePoint}

theorem tail {t : Tree} (h : AreGaps (t :: g)) : AreGaps g := fun u hu => h u (.tail t hu)

theorem all_isMark (h : AreGaps g) : g.all Tree.isMark = true :=
  List.all_eq_true.mpr fun t ht => (h t ht).isMark

theorem find?_role {r : Role} (h : AreGaps g) (hr : r ≠ .plain) :
    g.find? (·.role == r) = none := by
  rw [List.find?_eq_none]
  intro t ht
  simp [(h t ht).role, hr.symm]

/-- The argument behind an operator. -/
theorem eq_of_argument_behind {w : Text} {e t : Tree} (h : AreGaps g)
    (ht : (Tree.leaf .plain .token w :: (g ++ [e])).find? (·.role == .argument) = some t) :
    e = t := by
  have hnone := h.find?_role (show Role.argument ≠ .plain by decide)
  rw [List.find?_cons_of_neg (by simp), List.find?_append, hnone, Option.none_or] at ht
  exact (List.mem_singleton.mp (List.mem_of_find?_eq_some ht)).symm

/-- The argument before an operator. -/
theorem eq_of_argument_before {w : Text} {e t : Tree} (h : AreGaps g)
    (ht : (e :: (g ++ [Tree.leaf .plain .token w])).find? (·.role == .argument) = some t) :
    e = t := by
  have hothers : (g ++ [Tree.leaf .plain .token w]).find? (·.role == .argument) = none := by
    simp [List.find?_append, h.find?_role]
  rw [List.find?_cons] at ht
  split at ht
  · exact Option.some.inj ht
  · rw [hothers] at ht
    cases ht

theorem not_mem {t : Tree} (h : AreGaps g) (hblank : t.form ≠ .blank)
    (hcomment : t.form ≠ .comment) : t ∉ g := by
  intro ht
  rcases (h t ht).form with hform | hform
  · exact hblank hform
  · exact hcomment hform

/-- A gap without comments is white space. -/
theorem all_isSpace (h : AreGaps g) (hnamed : g.filter Tree.isNamed = []) :
    (Tree.texts g).all isSpace = true := by
  induction g with
  | nil => rfl
  | cons t g ih =>
    obtain ⟨ht, hg⟩ := List.filter_eq_nil_iff.mp hnamed |> List.forall_mem_cons.mp
    rw [Tree.texts, List.all_append, ih h.tail (List.filter_eq_nil_iff.mpr hg), Bool.and_true]
    cases h t List.mem_cons_self with
    | blank hx => exact hx
    | comment => exact absurd rfl ht

/-- No gap stands before a code point that starts none. -/
theorem texts_eq_nil (h : AreGaps g) (hd : startsGap d = false)
    (heq : Tree.texts g ++ u = d :: v) : Tree.texts g = [] := by
  induction g with
  | nil => rfl
  | cons t g ih =>
    have hstarts : ∀ {e y}, t.text = e :: y → startsGap e = false := by
      intro e y ht
      rw [Tree.texts, ht] at heq
      rw [(List.cons.inj heq).1]
      exact hd
    have hnil : t.text = [] := by
      cases h t List.mem_cons_self with
      | @blank x hx =>
        cases x with
        | nil => rfl
        | cons e y =>
          have he := hstarts rfl
          simp [startsGap, (Bool.and_eq_true_iff.mp hx).1] at he
      | comment hx =>
        obtain ⟨e, y, rfl, he, -⟩ := starts_of_comment hx
        rw [hstarts rfl] at he
        cases he
    rw [Tree.texts, hnil, List.nil_append] at heq ⊢
    exact ih h.tail heq

/-- Where no comment starts behind white space, a gap ends at the next code point. -/
theorem eq_of_append (h : AreGaps g) (hc : isSpace c = false) (hx : x.all isSpace = true)
    (hd : startsGap d = false) (heq : Tree.texts g ++ c :: u = x ++ d :: v) : c = d := by
  have hd' : isSpace d = false := by
    simp only [startsGap, Bool.or_eq_false_iff] at hd
    exact hd.1.1.1
  induction g generalizing x with
  | nil =>
    cases x with
    | nil => exact (List.cons.inj heq).1
    | cons e x =>
      obtain rfl := (List.cons.inj heq).1
      rw [(Bool.and_eq_true_iff.mp hx).1] at hc
      cases hc
  | cons t g ih =>
    rw [Tree.texts, List.append_assoc] at heq
    cases h t List.mem_cons_self with
    | @blank y hy =>
      rcases List.append_eq_append_iff.mp heq with ⟨x', rfl, hrest⟩ | ⟨y', rfl, hrest⟩
      · rw [List.all_append, Bool.and_eq_true] at hx
        exact ih h.tail hx.2 hrest
      · cases y' with
        | nil => exact ih h.tail (x := []) rfl hrest.symm
        | cons e y' =>
          obtain rfl := (List.cons.inj hrest).1
          rw [List.all_eq_true] at hy
          rw [hy d (by simp)] at hd'
          cases hd'
    | comment hcomment =>
      obtain ⟨e, y, rfl, hstarts, hspace⟩ := starts_of_comment hcomment
      cases x with
      | nil =>
        obtain rfl := (List.cons.inj heq).1
        rw [hstarts] at hd
        cases hd
      | cons e' x =>
        obtain rfl := (List.cons.inj heq).1
        rw [(Bool.and_eq_true_iff.mp hx).1] at hspace
        cases hspace

end AreGaps

/-! ## The parts of a function -/

/-- What stands in a function before its parameters: words, and the name that the function may give
itself. -/
inductive Head : (isAsync : Bool) → (own : Option Text) → List Tree → Prop
  | plain {g : List Tree} : AreGaps g → Head false none (.leaf .plain .token "function" :: g)
  | named {x : Text} {g g' : List Tree} : AreGaps g → AreGaps g' →
      Head false (some x)
        (.leaf .plain .token "function" :: (g ++ .leaf .name .identifier x :: g'))
  | async {own : Option Text} {head g : List Tree} : AreGaps g → Head false own head →
      Head true own (.leaf .plain .token "async" :: (g ++ head))

/-- The parts of a function that is no generator. -/
structure FunctionParts where
  isAsync : Bool
  own : Option Text
  head : List Tree
  parameters : Tree
  between : List Tree
  body : Tree

namespace FunctionParts

/-- The function as a tree. -/
def tree (p : FunctionParts) : Tree :=
  .node .plain .functionExpression (p.head ++ p.parameters :: (p.between ++ [p.body]))

/-- The function written with an arrow. -/
def arrowText (p : FunctionParts) : Text :=
  (if p.isAsync then "async " else "") ++ p.parameters.text ++ " => " ++ p.body.text

/-- The arrow function as a tree. -/
def arrow (p : FunctionParts) : Tree :=
  .node .plain .arrowFunction
    ((if p.isAsync then [.leaf .plain .token "async", .leaf .plain .blank " "] else []) ++
      [p.parameters, .leaf .plain .blank " ", .leaf .plain .token "=>", .leaf .plain .blank " ",
        p.body])

/-- The parts are what their names say: words, parameters in parentheses and a body in braces. -/
structure IsBuilt (p : FunctionParts) : Prop where
  head : Head p.isAsync p.own p.head
  parameters : ∃ ts, p.parameters = .node .parameters .formalParameters ts
  parentheses : ∃ x : Text, p.parameters.text = Text.ofString "(" ++ (x ++ Text.ofString ")")
  between : AreGaps p.between
  body : ∃ ts, p.body = .node .body .statementBlock ts
  braces : ∃ x : Text, p.body.text = Text.ofString "\x7b" ++ (x ++ Text.ofString "\x7d")

/-- The text is the function with these parts, and white space around it. -/
structure Fills (p : FunctionParts) (code : Text) : Prop where
  isBuilt : p.IsBuilt
  text : ∃ before after : Text, before.all isSpace = true ∧ after.all isSpace = true ∧
    code = before ++ (p.tree.text ++ after)

variable {p : FunctionParts}

theorem text_tree : p.tree.text = Tree.texts p.head ++ (p.parameters.text ++
    (Tree.texts p.between ++ p.body.text)) := by
  simp [tree, Tree.text, Tree.texts]

/-- What stands before the parameters. -/
theorem mem_head {isAsync : Bool} {own : Option Text} {head : List Tree} {c : Tree}
    (h : Head isAsync own head) (hc : c ∈ head) : c = .leaf .plain .token "function" ∨
      (isAsync = true ∧ c = .leaf .plain .token "async") ∨
      (∃ x, own = some x ∧ c = .leaf .name .identifier x) ∨ c.IsGap := by
  induction h with
  | plain hg =>
    rcases List.mem_cons.mp hc with hc | hc
    · exact .inl hc
    · exact .inr (.inr (.inr (hg c hc)))
  | named hg hg' =>
    simp only [List.mem_cons, List.mem_append] at hc
    rcases hc with hc | hc | hc | hc
    · exact .inl hc
    · exact .inr (.inr (.inr (hg c hc)))
    · exact .inr (.inr (.inl ⟨_, rfl, hc⟩))
    · exact .inr (.inr (.inr (hg' c hc)))
  | async hg _ ih =>
    simp only [List.mem_cons, List.mem_append] at hc
    rcases hc with hc | hc | hc
    · exact .inr (.inl ⟨rfl, hc⟩)
    · exact .inr (.inr (.inr (hg c hc)))
    · rcases ih hc with h | ⟨h, -⟩ | h
      · exact .inl h
      · cases h
      · exact .inr (.inr h)

theorem async_mem_head {own : Option Text} {head : List Tree} (h : Head true own head) :
    .leaf .plain .token "async" ∈ head := by
  cases h
  exact List.mem_cons_self

theorem find?_head {r : Role} {isAsync : Bool} {own : Option Text} {head : List Tree}
    (h : Head isAsync own head) (hr : r ≠ .plain) (hname : r ≠ .name) :
    head.find? (·.role == r) = none := by
  rw [List.find?_eq_none]
  intro c hc
  have hrole : c.role = .plain ∨ c.role = .name := by
    rcases mem_head h hc with rfl | ⟨-, rfl⟩ | ⟨x, -, rfl⟩ | hgap
    · simp
    · simp
    · simp
    · exact .inl hgap.role
  rcases hrole with hrole | hrole
  · simp [hrole, hr.symm]
  · simp [hrole, hname.symm]

theorem child?_parameters (h : p.IsBuilt) : p.tree.child? .parameters = some p.parameters := by
  obtain ⟨ts, hparameters⟩ := h.parameters
  simp [Tree.child?, tree, Tree.children, List.find?_append, find?_head h.head, hparameters]

theorem child?_body (h : p.IsBuilt) : p.tree.child? .body = some p.body := by
  obtain ⟨ts, hparameters⟩ := h.parameters
  obtain ⟨us, hbody⟩ := h.body
  simp [Tree.child?, tree, Tree.children, List.find?_append, find?_head h.head, hparameters,
    h.between.find?_role, hbody]

theorem any_async (h : p.IsBuilt) :
    p.tree.children.any (fun c => c.form == .token && c.text == "async") = p.isAsync := by
  obtain ⟨ts, hparameters⟩ := h.parameters
  obtain ⟨us, hbody⟩ := h.body
  have hgap : ∀ {c : Tree}, c.IsGap → (c.form == .token && c.text == "async") = false := by
    intro c hc
    rcases hc.form with hform | hform <;> simp [hform]
  have hhead := h.head
  rw [tree, Tree.children]
  cases hasync : p.isAsync with
  | false =>
    rw [List.any_eq_false]
    intro c hc
    simp only [List.mem_append, List.mem_cons, List.not_mem_nil, or_false] at hc
    rcases hc with hc | rfl | hc | rfl
    · rcases mem_head hhead hc with rfl | ⟨h, -⟩ | ⟨x, -, rfl⟩ | hc
      · decide
      · cases hasync.symm.trans h
      · simp
      · simp [hgap hc]
    · simp [hparameters]
    · simp [hgap (h.between c hc)]
    · simp [hbody]
  | true =>
    rw [List.any_eq_true]
    exact ⟨.leaf .plain .token "async",
      List.mem_append_left _ (async_mem_head (hasync ▸ hhead)), rfl⟩

theorem toArrow?_tree (h : p.IsBuilt) : p.tree.toArrow? = some p.arrowText := by
  have hform : p.tree.form = .functionExpression := rfl
  simp [Tree.toArrow?, hform, child?_parameters h, child?_body h, any_async h, arrowText]

/-- A function starts with a word. -/
theorem text_starts (h : p.IsBuilt) : ∃ y, p.tree.text = Text.ofString "function" ++ y ∨
    ∃ g, AreGaps g ∧
      p.tree.text = Text.ofString "async" ++ (Tree.texts g ++ (Text.ofString "function" ++ y)) := by
  have hplain : ∀ {own head}, Head false own head →
      ∃ y, Tree.texts head = Text.ofString "function" ++ y := by
    intro own head hhead
    cases hhead with
    | plain | named => exact ⟨_, rfl⟩
  rw [text_tree]
  generalize hb : p.isAsync = isAsync, ho : p.own = own, hts : p.head = head
  have hhead := h.head
  rw [hb, ho, hts] at hhead
  cases hhead with
  | plain | named => exact ⟨_, .inl (List.append_assoc _ _ _)⟩
  | @async _ head g hg hhead =>
    obtain ⟨y, hy⟩ := hplain hhead
    refine ⟨y ++ (p.parameters.text ++ (Tree.texts p.between ++ p.body.text)), .inr ⟨g, hg, ?_⟩⟩
    simp [Tree.texts, Tree.text, hy]

/-- A function starts with a letter and ends with its brace. -/
theorem text_ends (h : p.IsBuilt) : (∃ c y, p.tree.text = c :: y ∧ (c = 'f' ∨ c = 'a')) ∧
    ∃ z : Text, p.tree.text = z ++ Text.ofString "\x7d" := by
  constructor
  · obtain ⟨y, hy | ⟨g, -, hy⟩⟩ := text_starts h
    · exact ⟨_, _, hy, .inl rfl⟩
    · exact ⟨_, _, hy, .inr rfl⟩
  · obtain ⟨x, hx⟩ := h.braces
    exact ⟨Tree.texts p.head ++ (p.parameters.text ++ (Tree.texts p.between ++
      (Text.ofString "\x7b" ++ x))), by rw [text_tree, hx]; simp⟩

end FunctionParts

/-! ## Productions -/

/-- The operators that stand before their operand. -/
def unaryOperators : List Text := ["!", "~", "-", "+", "typeof", "void", "delete"].map Text.ofString

/-- The operators that change their operand. -/
def updateOperators : List Text := ["++", "--"].map Text.ofString

/-- The children of a node, by the productions that put a function in negated parentheses into a
script. -/
inductive Produces : Form → List Tree → Prop
  | program {ts : List Tree} : (∀ t ∈ ts, t.IsGap ∨ t.isNamed = true) → Produces .program ts
  | unterminated {e : Tree} {g : List Tree} : e.isNamed = true → AreGaps g →
      Produces .expressionStatement (e :: g)
  | terminated {e : Tree} {g : List Tree} : e.isNamed = true → AreGaps g →
      Produces .expressionStatement (e :: (g ++ [.leaf .plain .token ";"]))
  | unary {w : Text} {g : List Tree} {e : Tree} : w ∈ unaryOperators → AreGaps g →
      Produces .unary (.leaf .plain .token w :: (g ++ [e]))
  | updateBefore {w : Text} {g : List Tree} {e : Tree} : w ∈ updateOperators → AreGaps g →
      Produces .update (.leaf .plain .token w :: (g ++ [e]))
  | updateBehind {w : Text} {g : List Tree} {e : Tree} : AreGaps g →
      Produces .update (e :: (g ++ [.leaf .plain .token w]))
  | parenthesized {g g' : List Tree} {e : Tree} : AreGaps g → AreGaps g' → e.role = .plain →
      Produces .parenthesized (.leaf .plain .token "(" ::
        (g ++ e :: (g' ++ [.leaf .plain .token ")"])))
  | function {p : FunctionParts} : p.IsBuilt → Produces .functionExpression p.tree.children

/-- The parser reads the fragment in its parentheses as the grammar of the language has it: the
leaves spell the text, and if the path from the script leads to a function, then the trees on this
path have the children that their productions give them. Only operations have an argument. -/
structure Parser.RegularOn (parser : Parser) (code : Text) : Prop where
  covers : (parser (wrap code)).hasError = false → (parser (wrap code)).root.text = wrap code
  operation : (parser (wrap code)).hasError = false → ∀ route : (parser (wrap code)).root.Route,
    route.operation.form = .unary ∨ route.operation.form = .update
  produced : (parser (wrap code)).hasError = false → ∀ route : (parser (wrap code)).root.Route,
    ∀ f, route.operand.onlyChild? = some f → f.form = .functionExpression →
      ∀ t ∈ [(parser (wrap code)).root, route.statement, route.operation, route.operand, f],
        Produces t.form t.children

/-- If the fragment is a function, the parser reads it as the same tree without the blanks at its
ends, and reads its parameters and its body as the same trees in an arrow function. -/
structure Parser.UniformOn (parser : Parser) (code : Text) : Prop where
  strip : ∀ f, (parser (wrap code)).expression? = some f → f.form = .functionExpression →
    (parser (wrap code.strip)).expression? = some f
  arrow : ∀ p : FunctionParts, p.IsBuilt → (parser (wrap code)).expression? = some p.tree →
    (parser (wrap p.arrowText)).root.Negates p.arrow

/-- What is left of the gaps around a tree if they and the tree hold one named tree only. -/
theorem filter_between {ts us vs : List Tree} {f : Tree}
    (h : ts.filter Tree.isNamed ++ (us.filter Tree.isNamed ++ vs.filter Tree.isNamed) = [f])
    (hts : f ∉ ts.filter Tree.isNamed) (hvs : f ∉ vs.filter Tree.isNamed) :
    ts.filter Tree.isNamed = [] ∧ us.filter Tree.isNamed = [f] ∧ vs.filter Tree.isNamed = [] := by
  rcases hts' : ts.filter Tree.isNamed with _ | ⟨t, ts'⟩
  · rcases hus' : us.filter Tree.isNamed with _ | ⟨u, us'⟩
    · simp only [hts', hus', List.nil_append] at h
      exact absurd (by simp [h]) hvs
    · simp only [hts', hus', List.nil_append, List.cons_append, List.cons.injEq,
        List.append_eq_nil_iff] at h
      obtain ⟨rfl, rfl, hvs'⟩ := h
      exact ⟨rfl, rfl, hvs'⟩
  · simp only [hts', List.cons_append, List.cons.injEq] at h
    exact absurd (by simp [hts', h.1]) hts

/-! ### The children of each node on the path -/

section

variable {ts : List Tree} {c f : Tree} {u v x : Text}

/-- White space, without comments. -/
structure AreSpaces (ts : List Tree) : Prop where
  gaps : AreGaps ts
  unnamed : ts.filter Tree.isNamed = []

theorem AreSpaces.all_isSpace (h : AreSpaces ts) : (Tree.texts ts).all isSpace = true :=
  h.gaps.all_isSpace h.unnamed

theorem Produces.only_statement (h : Produces .program ts)
    (honly : ts.filter Tree.isNamed = [c]) :
    ∃ g g', AreSpaces g ∧ AreSpaces g' ∧ ts = g ++ c :: g' := by
  cases h with
  | program h =>
    obtain ⟨g, g', rfl, hg, -, hg'⟩ := List.filter_eq_cons_iff.mp honly
    have hgaps : ∀ {us : List Tree}, us.filter Tree.isNamed = [] →
        (∀ t ∈ us, t.IsGap ∨ t.isNamed = true) → AreGaps us :=
      fun hus h t ht => (h t ht).resolve_right (List.filter_eq_nil_iff.mp hus t ht)
    have hg := List.filter_eq_nil_iff.mpr hg
    exact ⟨g, g', ⟨hgaps hg fun t ht => h t (List.mem_append_left _ ht), hg⟩,
      ⟨hgaps hg' fun t ht => h t (List.mem_append_right _ (.tail c ht)), hg'⟩, rfl⟩

/-- A semicolon, or nothing. -/
inductive IsEnding : List Tree → Prop
  | none : IsEnding []
  | semicolon : IsEnding [.leaf .plain .token ";"]

theorem IsEnding.all_isMark (h : IsEnding ts) : ts.all Tree.isMark = true := by cases h <;> rfl

theorem Produces.only_operation (h : Produces .expressionStatement ts)
    (honly : ts.filter Tree.isNamed = [c]) :
    ∃ g ending, AreSpaces g ∧ IsEnding ending ∧ ts = c :: (g ++ ending) := by
  cases h with
  | @unterminated e g he hg =>
    rw [List.filter_cons_of_pos he] at honly
    obtain ⟨rfl, hnamed⟩ := List.cons.inj honly
    exact ⟨g, [], ⟨hg, hnamed⟩, .none, by rw [List.append_nil]⟩
  | terminated he hg =>
    rw [List.filter_cons_of_pos he, List.filter_append] at honly
    obtain ⟨rfl, hnamed⟩ := List.cons.inj honly
    exact ⟨_, _, ⟨hg, (List.append_eq_nil_iff.mp hnamed).1⟩, .semicolon, rfl⟩

/-- The operation is the negation if it starts with its sign. -/
theorem Produces.negation {F : Form} (h : Produces F ts) (hF : F = .unary ∨ F = .update)
    (hargument : ts.find? (·.role == .argument) = some c)
    (hc : c.text = Text.ofString "(" ++ x)
    (htext : Tree.texts ts ++ u = Text.ofString "!(" ++ v) :
    F = .unary ∧ ∃ g, AreGaps g ∧ Tree.texts g = [] ∧
      ts = .leaf .plain .token "!" :: (g ++ [c]) := by
  cases h with
  | @unary w g e hw hg =>
    obtain rfl := hg.eq_of_argument_behind hargument
    simp only [unaryOperators, List.map_cons, List.map_nil, List.mem_cons, List.not_mem_nil,
      or_false] at hw
    rcases hw with rfl | rfl | rfl | rfl | rfl | rfl | rfl
    case inl =>
      simp only [Tree.texts, Tree.text, Tree.texts_append, List.append_nil, hc,
        List.append_assoc] at htext
      have hgap : Tree.texts g = [] := hg.texts_eq_nil rfl (List.cons.inj htext).2
      exact ⟨rfl, g, hg, hgap, rfl⟩
    all_goals exact absurd (List.cons.inj htext).1 (by decide)
  | @updateBefore w g e hw hg =>
    simp only [updateOperators, List.map_cons, List.map_nil, List.mem_cons, List.not_mem_nil,
      or_false] at hw
    rcases hw with rfl | rfl <;> exact absurd (List.cons.inj htext).1 (by decide)
  | @updateBehind w g e hg =>
    obtain rfl := hg.eq_of_argument_before hargument
    rw [Tree.texts, hc] at htext
    exact absurd (List.cons.inj htext).1 (by decide)
  | _ => rcases hF with hF | hF <;> cases hF

theorem Produces.only_function (h : Produces .parenthesized ts)
    (honly : ts.filter Tree.isNamed = [f]) (hform : f.form = .functionExpression) :
    ∃ g g', AreSpaces g ∧ AreSpaces g' ∧ f.role = .plain ∧
      ts = .leaf .plain .token "(" :: (g ++ f :: (g' ++ [.leaf .plain .token ")"])) := by
  cases h with
  | @parenthesized g g' e hg hg' hrole =>
    have hmem : ∀ {us}, AreGaps us → f ∉ us.filter Tree.isNamed := fun hus hf =>
      hus.not_mem (by simp [hform]) (by simp [hform]) (List.mem_filter.mp hf).1
    have hclose : [Tree.leaf .plain .token (Text.ofString ")")].filter Tree.isNamed = [] := rfl
    rw [List.filter_cons_of_neg (by decide), ← List.singleton_append (x := e), List.filter_append,
      List.filter_append, List.filter_append, hclose, List.append_nil] at honly
    obtain ⟨hnamed, he, hnamed'⟩ := filter_between honly (hmem hg) (hmem hg')
    obtain rfl : e = f := by
      have hmem : f ∈ [e].filter Tree.isNamed := by rw [he]; exact List.mem_cons_self
      exact (List.mem_singleton.mp (List.mem_filter.mp hmem).1).symm
    exact ⟨g, g', ⟨hg, hnamed⟩, ⟨hg', hnamed'⟩, hrole, rfl⟩

theorem Produces.parts (h : Produces f.form f.children) (hform : f.form = .functionExpression)
    (hrole : f.role = .plain) : ∃ p : FunctionParts, p.tree = f ∧ p.IsBuilt := by
  cases f with
  | leaf r F x =>
    generalize hts : Tree.children (.leaf r F x) = ts at h
    cases hform
    cases h with
    | function => exact absurd hts.symm (by simp [FunctionParts.tree, Tree.children])
  | node r F ts =>
    cases hform
    cases hrole
    generalize hts : Tree.children (.node .plain .functionExpression ts) = us at h
    cases h with
    | function hp => exact ⟨_, congrArg _ hts.symm, hp⟩

end

/-! ### The fragment in its parentheses -/

/-- A text that ends with another code point ends with no white space. -/
theorem eq_nil_of_ends {v w z : Text} {d : CodePoint} (hd : isSpace d = false)
    (hz : z.all isSpace = true) (h : v ++ [d] = w ++ z) : z = [] := by
  rcases List.eq_nil_or_concat z with rfl | ⟨z', e, rfl⟩
  · rfl
  · rw [List.concat_eq_append] at h hz
    have he := (List.append_inj' (h.trans (List.append_assoc _ _ _).symm) rfl).2
    have hspace := List.all_eq_true.mp hz d (by simp [(List.cons.inj he).1])
    rw [hd] at hspace
    exact absurd hspace nofun

theorem ends_with_semicolon {c u x y : Text} (hx : x.all isSpace = true) (hy : y.all isSpace = true)
    (h : c ++ Text.ofString ");" = u ++ (Text.ofString ")" ++ (y ++ (Text.ofString ";" ++ x)))) :
    c = u ∧ x = [] ∧ y = [] := by
  have hsemicolon : (c ++ Text.ofString ")") ++ [CodePoint.ofChar ';'] =
      (u ++ (Text.ofString ")" ++ (y ++ Text.ofString ";"))) ++ x := by
    simpa [Text.ofString] using h
  obtain rfl := eq_nil_of_ends rfl hx hsemicolon
  have hsemicolon' : (c ++ Text.ofString ")") ++ [CodePoint.ofChar ';'] =
      (u ++ (Text.ofString ")" ++ y)) ++ [CodePoint.ofChar ';'] := by
    simpa [Text.ofString] using hsemicolon
  have hbracket : c ++ [CodePoint.ofChar ')'] = (u ++ [CodePoint.ofChar ')']) ++ y := by
    simpa [Text.ofString] using List.append_cancel_right hsemicolon'
  obtain rfl := eq_nil_of_ends rfl hy hbracket
  rw [List.append_nil] at hbracket
  exact ⟨List.append_cancel_right hbracket, rfl, rfl⟩

theorem not_ends_with_bracket {c u x : Text} (hx : x.all isSpace = true) :
    c ++ Text.ofString ");" ≠ u ++ (Text.ofString ")" ++ x) := by
  intro h
  have hsemicolon : (c ++ Text.ofString ")") ++ [CodePoint.ofChar ';'] =
      (u ++ Text.ofString ")") ++ x := by
    simpa [Text.ofString] using h
  obtain rfl := eq_nil_of_ends rfl hx hsemicolon
  rw [List.append_nil] at hsemicolon
  exact absurd (List.cons.inj (List.append_inj' hsemicolon rfl).2).1 (by decide)

/-- What stands in the parentheses of a script ends before the last closing one. -/
theorem eq_of_wrapped {c u x y : Text} {ending : List Tree} (hx : x.all isSpace = true)
    (hy : y.all isSpace = true) (hending : IsEnding ending)
    (h : c ++ Text.ofString ");" =
      u ++ (Text.ofString ")" ++ (y ++ (Tree.texts ending ++ x)))) : c = u := by
  cases hending with
  | none =>
    have hspaces : (y ++ x).all isSpace = true := by rw [List.all_append, hy, hx]; rfl
    exact absurd h (not_ends_with_bracket hspaces)
  | semicolon => exact (ends_with_semicolon hx hy h).1

section

variable {parser : Parser} {code : Text} {f : Tree}

theorem Tree.surrounds_of_marks {t c : Tree} (us vs : List Tree) (h : t.children = us ++ c :: vs)
    (hus : us.all Tree.isMark = true) (hvs : vs.all Tree.isMark = true) : t.Surrounds c :=
  ⟨us, vs, h, by rw [List.all_append, hus, hvs]; rfl⟩

namespace Tree.Route

/-- What stands beside the trees on a path that ends at a function. -/
structure Layout {script : Tree} (route : script.Route) (f : Tree) where
  before : List Tree
  after : List Tree
  behind : List Tree
  ending : List Tree
  left : List Tree
  right : List Tree
  before_spaces : AreSpaces before
  after_spaces : AreSpaces after
  behind_spaces : AreSpaces behind
  isEnding : IsEnding ending
  left_spaces : AreSpaces left
  right_spaces : AreSpaces right
  script_eq : script.children = before ++ route.statement :: after
  statement_eq : route.statement.children = route.operation :: (behind ++ ending)
  operand_eq : route.operand.children =
    .leaf .plain .token "(" :: (left ++ f :: (right ++ [.leaf .plain .token ")"]))

namespace Layout

variable {script : Tree} {route : script.Route} {g : List Tree}

theorem text_operand (l : route.Layout f) : route.operand.text = Text.ofString "(" ++
    (Tree.texts l.left ++ (f.text ++ (Tree.texts l.right ++ Text.ofString ")"))) := by
  have hmem : Tree.leaf .plain .token "(" ∈ route.operand.children := by
    rw [l.operand_eq]
    exact List.mem_cons_self
  rw [Tree.text_eq_texts hmem, l.operand_eq]
  simp [Tree.texts, Tree.text]

theorem text_script (l : route.Layout f) : script.text = Tree.texts l.before ++
    (route.operation.text ++ (Tree.texts l.behind ++ (Tree.texts l.ending ++
      Tree.texts l.after))) := by
  rw [Tree.text_eq_texts (Tree.mem_of_onlyChild? route.only_statement), l.script_eq,
    Tree.texts_append, Tree.texts,
    Tree.text_eq_texts (Tree.mem_of_onlyChild? route.only_operation), l.statement_eq]
  simp [Tree.texts]

/-- Nothing stands before the sign or between it and the parenthesis. -/
theorem negation (l : route.Layout f) (hscript : script.text = wrap code)
    (hform : route.operation.form = .unary ∨ route.operation.form = .update)
    (h : Produces route.operation.form route.operation.children) :
    Tree.texts l.before = [] ∧ route.operation.form = .unary ∧
      ∃ g, AreGaps g ∧ Tree.texts g = [] ∧
        route.operation.children = .leaf .plain .token "!" :: (g ++ [route.operand]) := by
  have htext := l.text_script.symm.trans (hscript.trans (List.append_assoc _ _ _))
  have hbefore : Tree.texts l.before = [] := l.before_spaces.gaps.texts_eq_nil (d := '!') rfl htext
  rw [hbefore, List.nil_append,
    Tree.text_eq_texts (List.mem_of_find?_eq_some route.argument)] at htext
  exact ⟨hbefore, h.negation hform route.argument l.text_operand htext⟩

theorem code_eq (l : route.Layout f) (hscript : script.text = wrap code)
    (hbefore : Tree.texts l.before = []) (hg : Tree.texts g = [])
    (hsign : route.operation.children = .leaf .plain .token "!" :: (g ++ [route.operand])) :
    code = Tree.texts l.left ++ (f.text ++ Tree.texts l.right) := by
  have htext := l.text_script.symm.trans hscript
  rw [hbefore, Tree.text_eq_texts (List.mem_of_find?_eq_some route.argument), hsign, Tree.texts,
    Tree.texts_append, hg, Tree.texts, Tree.texts, l.text_operand, wrap] at htext
  have hcode : code ++ Text.ofString ");" = (Tree.texts l.left ++ (f.text ++ Tree.texts l.right)) ++
      (Text.ofString ")" ++ (Tree.texts l.behind ++ (Tree.texts l.ending ++
        Tree.texts l.after))) := by
    simpa [Tree.text, Text.ofString] using htext.symm
  exact eq_of_wrapped l.after_spaces.all_isSpace l.behind_spaces.all_isSpace l.isEnding hcode

theorem negates (l : route.Layout f) (hprogram : script.form = .program)
    (hunary : route.operation.form = .unary) (hg : AreGaps g)
    (hsign : route.operation.children = .leaf .plain .token "!" :: (g ++ [route.operand])) :
    script.Negates f := by
  have hstatement := surrounds_of_marks l.before l.after l.script_eq
    l.before_spaces.gaps.all_isMark l.after_spaces.gaps.all_isMark
  have hoperation := surrounds_of_marks [] (l.behind ++ l.ending) l.statement_eq rfl
    (by rw [List.all_append, l.behind_spaces.gaps.all_isMark, l.isEnding.all_isMark]; rfl)
  have hoperand := surrounds_of_marks (.leaf .plain .token "!" :: g) [] hsign
    (by rw [List.all_cons, hg.all_isMark]; rfl) rfl
  have hfunction := surrounds_of_marks (.leaf .plain .token "(" :: l.left)
    (l.right ++ [.leaf .plain .token ")"]) l.operand_eq
    (by rw [List.all_cons, l.left_spaces.gaps.all_isMark]; rfl)
    (by rw [List.all_append, l.right_spaces.gaps.all_isMark]; rfl)
  exact .intro hprogram hstatement route.form_statement hoperation hunary hoperand
    route.form_operand hfunction

end Layout

end Tree.Route

/-- The productions lay out the path to a function and take the function apart. -/
theorem Parser.RegularOn.exists_layout (h : parser.RegularOn code)
    (herror : (parser (wrap code)).hasError = false) (route : (parser (wrap code)).root.Route)
    (hf : route.operand.onlyChild? = some f) (hform : f.form = .functionExpression) :
    Nonempty (route.Layout f) ∧ Produces route.operation.form route.operation.children ∧
      ∃ p : FunctionParts, p.tree = f ∧ p.IsBuilt := by
  have hproduced := h.produced herror route f hf hform
  simp only [List.forall_mem_cons, List.not_mem_nil, false_implies, implies_true, and_true,
    route.form_statement, route.form_operand] at hproduced
  obtain ⟨hroot, hstatement, hoperation, hoperand, hfunction⟩ := hproduced
  obtain ⟨before, after, hbefore, hafter, hroot⟩ :=
    hroot.only_statement (Tree.onlyChild?_eq_some.mp route.only_statement)
  obtain ⟨behind, ending, hbehind, hending, hstatement⟩ :=
    hstatement.only_operation (Tree.onlyChild?_eq_some.mp route.only_operation)
  obtain ⟨left, right, hleft, hright, hrole, hoperand⟩ :=
    hoperand.only_function (Tree.onlyChild?_eq_some.mp hf) hform
  exact ⟨⟨before, after, behind, ending, left, right, hbefore, hafter, hbehind, hending, hleft,
    hright, hroot, hstatement, hoperand⟩, hoperation, hfunction.parts hform hrole⟩

/-- A function at the end of the path is all of the fragment, white space apart. -/
theorem Parser.RegularOn.fills (h : parser.RegularOn code)
    (herror : (parser (wrap code)).hasError = false) (route : (parser (wrap code)).root.Route)
    (hf : route.operand.onlyChild? = some f) (hform : f.form = .functionExpression) :
    (parser (wrap code)).root.Negates f ∧
      route.operand.text = Text.ofString "(" ++ (code ++ Text.ofString ")") ∧
      ∃ p : FunctionParts, p.tree = f ∧ p.Fills code := by
  obtain ⟨⟨l⟩, hproduced, p, rfl, hp⟩ := h.exists_layout herror route hf hform
  have hcovers := h.covers herror
  obtain ⟨hbefore, hunary, g, hg, hnone, hsign⟩ :=
    l.negation hcovers (h.operation herror route) hproduced
  have hcode := l.code_eq hcovers hbefore hnone hsign
  refine ⟨l.negates rfl hunary hg hsign, ?_, p, rfl, hp, _, _, l.left_spaces.all_isSpace,
    l.right_spaces.all_isSpace, hcode⟩
  rw [l.text_operand]
  simpa using (congrArg (· ++ Text.ofString ")") hcode).symm

theorem Script.expression?_eq_some {s : Script} : s.expression? = some f ↔
    s.hasError = false ∧ ∃ route : s.root.Route, route.operand.onlyChild? = some f := by
  rw [← Tree.wrapped?_eq_some, Script.expression?]
  cases s.hasError <;> simp

theorem Parser.RegularOn.exists_fills (h : parser.RegularOn code)
    (hf : (parser (wrap code)).expression? = some f) (hform : f.form = .functionExpression) :
    (parser (wrap code)).root.Negates f ∧ ∃ p : FunctionParts, p.tree = f ∧ p.Fills code := by
  obtain ⟨herror, route, honly⟩ := Script.expression?_eq_some.mp hf
  obtain ⟨hnegates, -, hfills⟩ := h.fills herror route honly hform
  exact ⟨hnegates, hfills⟩

/-! ## Fragments -/

theorem toArrow_eq_ok (parser : Parser) (hsurrogate : code.hasSurrogate = false) :
    toArrow parser code =
      .ok (((parser (wrap code.strip)).expression?.bind Tree.toArrow?).getD code.strip) := by
  simp [toArrow, readWrapped, Text.strip_hasSurrogate hsurrogate, Except.map]

theorem freeNames_eq_ok (parser : Parser) (hsurrogate : code.hasSurrogate = false)
    (hblank : code.isBlank = false) :
    freeNames parser code = .ok (parser (wrap code)).root.freeNames := by
  simp [freeNames, readWrapped, hsurrogate, hblank, Except.map]

end

end CompositeScript.Fragment
