import CompositeScript.Proofs.Fragment.Fuel
import CompositeScript.Proofs.Fragment.Parsers
import CompositeScript.Emitter.Function

/-!
Functions that read `arguments`.

An arrow function has no `arguments` of its own, so a function that reads its own is not written as
one. Whether it does is judged from its tree, whatever parser made it: a reference to `arguments`
counts if it stands in a place where a variable is read (`Tree.Refers`) and no variable of that name
is declared anywhere in the function (`Tree.Declares`).
-/

namespace CompositeScript.Fragment

namespace Tree

/-- The child is part of another function than an arrow function, or of a class. The word
`arguments` means something else in it. The key of a method is no part of the method. -/
def isOwned (t c : Tree) : Bool :=
  t.form.isDefinition || t.form == .method && (c.role == .parameters || c.role == .body)

/-- The child is a name or a pattern that the tree declares. -/
def declaresChild (t c : Tree) : Bool :=
  match t.form with
  | .formalParameters => true
  | .variableDeclarator => c.role == .name
  | .arrowFunction | .catchClause => c.role == .parameter
  | .forIn => c.role == .left && (t.child? .declarator).isSome
  | f => f.isDefinition && c.role == .name

/-- The child is an initial value in a pattern. -/
def isInitialValue (t c : Tree) : Bool := t.form.isDefaulted && c.role == .right

/-- The child is the key of a property in a pattern. -/
def isPatternKey (t c : Tree) : Bool := t.form == .pairPattern && c.role == .key

/-- The tree is a name. -/
def isName (t : Tree) : Bool := t.isDeclaration || t.isReferring

/-- The pattern binds the name. Its keys and initial values bind nothing. -/
inductive Binds : Tree → Text → Prop
  | name {t : Tree} : t.isDeclaration = true → Binds t t.text
  | part {t c : Tree} {n : Text} : c ∈ t.children → t.isPatternKey c = false →
      t.isInitialValue c = false → Binds c n → Binds t n

/-- Somewhere in the tree the name is declared. -/
inductive Declares : Tree → Text → Prop
  | binds {t c : Tree} {n : Text} : c ∈ t.children → t.declaresChild c = true → Binds c n →
      Declares t n
  | inside {t c : Tree} {n : Text} : c ∈ t.children → Declares c n → Declares t n

/-- The tree holds a reference to the name outside of the functions and classes in it, arrow
functions apart. With `inPattern` the tree is a pattern of what is declared, where only initial
values refer. -/
inductive Refers : (inPattern : Bool) → Tree → Text → Prop
  | name {t : Tree} : t.isReferring = true → Refers false t t.text
  | inside {t c : Tree} {n : Text} : t.isName = false → c ∈ t.children → t.isOwned c = false →
      t.declaresChild c = false → t.isPatternKey c = false → Refers false c n → Refers false t n
  | declared {t c : Tree} {n : Text} : c ∈ t.children → t.declaresChild c = true →
      Refers true c n → Refers false t n
  | part {t c : Tree} {n : Text} : t.isName = false → c ∈ t.children →
      t.isPatternKey c = false → t.isInitialValue c = false → Refers true c n → Refers true t n
  | initial {t c : Tree} {n : Text} : c ∈ t.children → t.isInitialValue c = true →
      Refers false c n → Refers true t n

variable {t c : Tree} {n : Text} {d : Bool}

/-! ## Places -/

theorem childPlace_eq (t c : Tree) (d : Bool) : t.childPlace d c =
    if t.declaresChild c then some true
    else if t.isInitialValue c then some false
    else if t.isPatternKey c then none
    else some d := by
  unfold declaresChild
  split
  case h_1 h => simp [childPlace, h, Form.isDefinition]
  case h_2 h =>
    simp [childPlace, h, Form.isDefinition, Form.isDefaulted, declaresIn_eq, isInitialValue,
      isPatternKey]
  case h_3 h =>
    simp [childPlace, h, Form.isDefinition, Form.isDefaulted, declaresIn_eq, isInitialValue,
      isPatternKey]
  case h_4 h =>
    simp [childPlace, h, Form.isDefinition, Form.isDefaulted, declaresIn_eq, isInitialValue,
      isPatternKey]
  case h_5 h =>
    cases hdeclarator : t.child? .declarator <;>
      simp [childPlace, h, Form.isDefinition, Form.isDefaulted, declaresIn_eq, isInitialValue,
        isPatternKey, hdeclarator]
  case h_6 hparameters hvariable harrow hcatch hloop =>
    simp [childPlace, show t.form ≠ .formalParameters from hparameters,
      show t.form ≠ .variableDeclarator from hvariable, show t.form ≠ .arrowFunction from harrow,
      show t.form ≠ .catchClause from hcatch, show t.form ≠ .forIn from hloop, declaresIn_eq,
      isInitialValue, isPatternKey]

theorem counts_of_isName (h : t.isName = false) : t.counts d = false := by
  obtain ⟨hdeclaration, hreferring⟩ := Bool.or_eq_false_iff.mp h
  cases d <;> simp [counts, hdeclaration, hreferring]

/-- What declares is no name itself. -/
theorem isName_of_declaresChild (h : t.declaresChild c = true) : t.isName = false := by
  by_contra hname
  have hform : t.form = .identifier ∨ t.form = .shorthandPattern ∨ t.form = .shorthand := by
    simp only [isName, isDeclaration, isReferring, Bool.not_eq_false, Bool.or_eq_true,
      beq_iff_eq] at hname
    grind
  rcases hform with hform | hform | hform <;>
    simp [declaresChild, hform, Form.isDefinition] at h

theorem form_of_isInitialValue (h : t.isInitialValue c = true) :
    t.form = .assignmentPattern ∨ t.form = .objectAssignmentPattern := by
  have hdefaulted := (Bool.and_eq_true_iff.mp h).1
  unfold Form.isDefaulted at hdefaulted
  split at hdefaulted
  · exact .inl ‹_›
  · exact .inr ‹_›
  · exact absurd hdefaulted nofun

/-! ## Occurrences -/

/-- A reference is found as one. -/
theorem Refers.occurs (h : Refers d t n) : Occurs t d n false := by
  induction h with
  | name hname => exact .here hname
  | inside hname hc _ hdeclares hkey _ ih =>
    exact .inside (counts_of_isName hname) hc (by simp [childPlace_eq, hdeclares, hkey]) ih
  | declared hc hdeclares _ ih =>
    exact .inside (counts_of_isName (isName_of_declaresChild hdeclares)) hc
      (by simp [childPlace_eq, hdeclares]) ih
  | part hname hc hkey hinitial _ ih =>
    exact .inside (counts_of_isName hname) hc (by simp [childPlace_eq, hkey, hinitial]) ih
  | @initial t c n hc hinitial _ ih =>
    have hdeclares : t.isName = false ∧ t.declaresChild c = false := by
      rcases form_of_isInitialValue hinitial with hform | hform <;>
        simp [isName, isDeclaration, isReferring, declaresChild, hform, Form.isDefinition]
    exact .inside (counts_of_isName hdeclares.1) hc
      (by simp [childPlace_eq, hdeclares.2, hinitial]) ih

/-- What is found as a declaration is one. -/
theorem declares_of_occurs (h : Occurs t d n true) :
    Declares t n ∨ (d = true ∧ Binds t n) := by
  generalize hb : true = b at h
  induction h with
  | here hcounts =>
    subst hb
    exact .inr ⟨rfl, .name hcounts⟩
  | @inside t c d d' n b _ hc hplace _ ih =>
    rcases ih hb with hbelow | ⟨rfl, hbelow⟩
    · exact .inl (.inside hc hbelow)
    · rw [childPlace_eq] at hplace
      split at hplace
      next hdeclares => exact .inl (.binds hc hdeclares hbelow)
      next =>
        split at hplace
        · cases hplace
          exact absurd hb nofun
        next hinitial =>
          split at hplace
          · exact absurd hplace nofun
          next hkey =>
            exact .inr ⟨Option.some.inj hplace, .part hc (Bool.eq_false_iff.mpr hkey)
              (Bool.eq_false_iff.mpr hinitial) hbelow⟩

/-! ## Deciding -/

theorem binds_iff : Binds t n ↔ (t.isDeclaration = true ∧ t.text = n) ∨
    ∃ c ∈ t.children, t.isPatternKey c = false ∧ t.isInitialValue c = false ∧ Binds c n := by
  constructor
  · intro h
    cases h with
    | name h => exact .inl ⟨h, rfl⟩
    | part hc hkey hinitial hbinds => exact .inr ⟨_, hc, hkey, hinitial, hbinds⟩
  · rintro (⟨h, rfl⟩ | ⟨c, hc, hkey, hinitial, hbinds⟩)
    · exact .name h
    · exact .part hc hkey hinitial hbinds

theorem declares_iff : Declares t n ↔
    ∃ c ∈ t.children, (t.declaresChild c = true ∧ Binds c n) ∨ Declares c n := by
  constructor
  · intro h
    cases h with
    | binds hc hdeclares hbinds => exact ⟨_, hc, .inl ⟨hdeclares, hbinds⟩⟩
    | inside hc hdeclares => exact ⟨_, hc, .inr hdeclares⟩
  · rintro ⟨c, hc, ⟨hdeclares, hbinds⟩ | h⟩
    · exact .binds hc hdeclares hbinds
    · exact .inside hc h

mutual

def decBinds (n : Text) : (t : Tree) → Decidable (Binds t n)
  | leaf r f x => decidable_of_iff ((leaf r f x).isDeclaration = true ∧ x = n)
      (by rw [binds_iff]; simp [text, children])
  | node r f ts =>
    have := decBindsAny n (node r f ts) ts
    decidable_of_iff (((node r f ts).isDeclaration = true ∧ (node r f ts).text = n) ∨
      ∃ c ∈ ts, (node r f ts).isPatternKey c = false ∧ (node r f ts).isInitialValue c = false ∧
        Binds c n) binds_iff.symm

def decBindsAny (n : Text) (t : Tree) : (ts : List Tree) →
    Decidable (∃ c ∈ ts, t.isPatternKey c = false ∧ t.isInitialValue c = false ∧ Binds c n)
  | [] => isFalse (by simp)
  | c :: ts =>
    have := decBinds n c
    have := decBindsAny n t ts
    decidable_of_iff ((t.isPatternKey c = false ∧ t.isInitialValue c = false ∧ Binds c n) ∨
      ∃ c ∈ ts, t.isPatternKey c = false ∧ t.isInitialValue c = false ∧ Binds c n) (by simp)

end

instance : Decidable (Binds t n) := decBinds n t

mutual

def decDeclares (n : Text) : (t : Tree) → Decidable (Declares t n)
  | leaf _ _ _ => isFalse (by rw [declares_iff]; simp [children])
  | node r f ts =>
    have := decDeclaresAny n (node r f ts) ts
    decidable_of_iff (∃ c ∈ ts, ((node r f ts).declaresChild c = true ∧ Binds c n) ∨
      Declares c n) (declares_iff (t := node r f ts)).symm

def decDeclaresAny (n : Text) (t : Tree) : (ts : List Tree) →
    Decidable (∃ c ∈ ts, (t.declaresChild c = true ∧ Binds c n) ∨ Declares c n)
  | [] => isFalse (by simp)
  | c :: ts =>
    have := decDeclares n c
    have := decDeclaresAny n t ts
    decidable_of_iff (((t.declaresChild c = true ∧ Binds c n) ∨ Declares c n) ∨
      ∃ c ∈ ts, (t.declaresChild c = true ∧ Binds c n) ∨ Declares c n) (by simp)

end

instance : Decidable (Declares t n) := decDeclares n t

end Tree

end CompositeScript.Fragment

namespace CompositeScript

open Fragment

theorem shapeOf_scan_eq_ok (parser : Parser) {code : Text} (hsurrogate : code.hasSurrogate = false)
    (hblank : code.isBlank = false) (hforward : isForward code = false) :
    Function.shapeOf parser .scan code =
      .ok (if (parser (wrap code)).root.freeNames.contains (Text.ofString "arguments") then .bound
        else .arrow) := by
  simp only [Function.shapeOf, hforward, NameFinder.find,
    freeNames_eq_ok parser hsurrogate hblank, Except.map]
  simp

/-- A function that reads its own `arguments` is never written as an arrow function, if none of the
variables declared in it is called so. -/
theorem shapeOf_bound_of_refers {parser : Parser} {code : Text} {f c : Tree}
    (hsurrogate : code.hasSurrogate = false) (hblank : code.isBlank = false)
    (hforward : isForward code = false) (hf : (parser (wrap code)).root.Negates f)
    (hform : f.form = .functionExpression ∨ f.form = .generatorExpression) (hc : c ∈ f.children)
    (hrole : c.role = .parameters ∨ c.role = .body) (hrefers : c.Refers false "arguments")
    (hdeclares : ¬ f.Declares "arguments") :
    Function.shapeOf parser .scan code = .ok .bound := by
  have hplace : f.isName = false ∧ f.declaresChild c = false ∧ f.isPatternKey c = false := by
    rcases hform with h | h <;> rcases hrole with hr | hr <;>
      simp [Tree.isName, Tree.isDeclaration, Tree.isReferring, Tree.declaresChild,
        Tree.isPatternKey, Form.isDefinition, h, hr]
  have hoccurs : f.Occurs false "arguments" false :=
    .inside (Tree.counts_of_isName hplace.1) hc
      (by simp [Tree.childPlace_eq, hplace.2]) hrefers.occurs
  have hfree : Text.ofString "arguments" ∈ (parser (wrap code)).root.freeNames := by
    rw [hf.mem_freeNames, Tree.mem_freeNames]
    refine ⟨hoccurs, fun hdeclared => ?_⟩
    rcases Tree.declares_of_occurs hdeclared with h | ⟨h, -⟩
    · exact hdeclares h
    · cases h
  rw [shapeOf_scan_eq_ok parser hsurrogate hblank hforward,
    if_pos (List.contains_iff_mem.mpr hfree)]

/-- The tree of `function(){ return {[arguments[0]](){}}; }`. -/
def readingArguments : Tree :=
  .node .plain .functionExpression [.leaf .plain .token "function",
    .node .parameters .formalParameters [.leaf .plain .token "(", .leaf .plain .token ")"],
    .node .body .statementBlock [.leaf .plain .token "\x7b", .leaf .plain .blank " ",
      .node .plain .statement [.leaf .plain .token "return", .leaf .plain .blank " ",
        .node .plain .object [.leaf .plain .token "\x7b",
          .node .plain .method [
            .node .key .computedName [.leaf .plain .token "[",
              .node .plain .subscript [.leaf .plain .identifier "arguments",
                .leaf .plain .token "[", .leaf .plain .number "0", .leaf .plain .token "]"],
              .leaf .plain .token "]"],
            .node .parameters .formalParameters [.leaf .plain .token "(", .leaf .plain .token ")"],
            .node .body .statementBlock [.leaf .plain .token "\x7b", .leaf .plain .token "\x7d"]],
          .leaf .plain .token "\x7d"],
        .leaf .plain .token ";"],
      .leaf .plain .blank " ", .leaf .plain .token "\x7d"]]

set_option maxRecDepth 100000 in
/-- Neither the comment before the function nor the method whose key is read hides the name. -/
theorem shapeOf_readingArguments : Function.shapeOf Fragment.parser .scan
    "/**/function()\x7b return \x7b[arguments[0]]()\x7b\x7d\x7d; \x7d" = .ok .bound := by
  have hparse : parse (wrap "/**/function()\x7b return \x7b[arguments[0]]()\x7b\x7d\x7d; \x7d") =
      some (.wrapping [.leaf .plain .comment "/**/"] readingArguments []) := by decide +kernel
  have hrefers : Tree.Refers false (readingArguments.children.getLast nofun) "arguments" :=
    .inside rfl (.tail _ (.tail _ (.head _))) rfl rfl rfl
      (.inside rfl (.tail _ (.tail _ (.head _))) rfl rfl rfl
        (.inside rfl (.tail _ (.head _)) rfl rfl rfl
          (.inside rfl (.head _) rfl rfl rfl
            (.inside rfl (.tail _ (.head _)) rfl rfl rfl
              (.inside rfl (.head _) rfl rfl rfl (.name rfl))))))
  refine shapeOf_bound_of_refers (f := readingArguments) rfl rfl (by decide +kernel) ?_ (.inl rfl)
    (.tail _ (.tail _ (.head _))) (.inr rfl) hrefers (by decide +kernel)
  rw [parser_eq hparse]
  exact Tree.negates_wrapping rfl rfl

/-- The tree of `function(){ g(arguments); function h(arguments){} }`. -/
def shadowingArguments : Tree :=
  .node .plain .functionExpression [.leaf .plain .token "function",
    .node .parameters .formalParameters [.leaf .plain .token "(", .leaf .plain .token ")"],
    .node .body .statementBlock [.leaf .plain .token "\x7b", .leaf .plain .blank " ",
      .node .plain .expressionStatement [
        .node .plain .call [.leaf .plain .identifier "g",
          .node .plain .arguments [.leaf .plain .token "(", .leaf .plain .identifier "arguments",
            .leaf .plain .token ")"]],
        .leaf .plain .token ";"],
      .leaf .plain .blank " ",
      .node .plain .functionDeclaration [.leaf .plain .token "function", .leaf .plain .blank " ",
        .leaf .name .identifier "h",
        .node .parameters .formalParameters [.leaf .plain .token "(",
          .leaf .plain .identifier "arguments", .leaf .plain .token ")"],
        .node .body .statementBlock [.leaf .plain .token "\x7b", .leaf .plain .token "\x7d"]],
      .leaf .plain .blank " ", .leaf .plain .token "\x7d"]]

set_option maxRecDepth 100000 in
/-- A name that only a function inside declares hides the reference that stands beside it. -/
theorem shapeOf_shadowingArguments :
    ∃ f body inner, parse (wrap "function()\x7b g(arguments); function h(arguments)\x7b\x7d \x7d") =
        some (.wrapping [] f []) ∧
      f.form = .functionExpression ∧ body ∈ f.children ∧ body.role = .body ∧
      body.Refers false "arguments" ∧ inner.form = .functionDeclaration ∧
      (∀ c ∈ f.children ++ body.children, c.Declares "arguments" → c = body ∨ c = inner) ∧
      Function.shapeOf Fragment.parser .scan
        "function()\x7b g(arguments); function h(arguments)\x7b\x7d \x7d" = .ok .arrow := by
  have hparse : parse (wrap "function()\x7b g(arguments); function h(arguments)\x7b\x7d \x7d") =
      some (.wrapping [] shadowingArguments []) := by decide +kernel
  have hnegates : Tree.Negates (parser (wrap
      "function()\x7b g(arguments); function h(arguments)\x7b\x7d \x7d")).root
        shadowingArguments := by
    rw [parser_eq hparse]
    exact Tree.negates_wrapping rfl rfl
  refine ⟨shadowingArguments, shadowingArguments.children.getLast nofun,
    (shadowingArguments.children.getLast nofun).children.getD 4 (.leaf .plain .blank []), hparse,
    rfl, .tail _ (.tail _ (.head _)), rfl, ?_, rfl, ?_, ?_⟩
  · exact .inside rfl (.tail _ (.tail _ (.head _))) rfl rfl rfl
      (.inside rfl (.head _) rfl rfl rfl
        (.inside rfl (.tail _ (.head _)) rfl rfl rfl
          (.inside rfl (.tail _ (.head _)) rfl rfl rfl (.name rfl))))
  · decide +kernel
  · have hdeclared : shadowingArguments.Occurs false "arguments" true :=
      Tree.mem_names.mp (by decide +kernel)
    rw [shapeOf_scan_eq_ok _ rfl rfl (by decide +kernel), if_neg]
    rw [List.contains_iff_mem, hnegates.mem_freeNames, Tree.mem_freeNames]
    exact fun h => h.2 hdeclared

end CompositeScript
