import CompositeScript.Proofs.Fragment.Fuel
import CompositeScript.Proofs.Fragment.Wrapped

/-!
The parts of a function expression.
-/

namespace CompositeScript.Fragment

open Rule Grammar

section

variable {s rest : Text} {k : Bool} {ts : List Tree} {f : Tree}

theorem reads_keyword_found {w : Text} : Reads grammar (keyword w) s (.found k ts rest) ↔
    Lexeme.keyword w s = some w.length ∧ k = false ∧ ts = [.leaf .plain .token w] ∧
      s = w ++ rest := by
  rw [keyword, word, reads_leaf_found]
  constructor
  · rintro ⟨n, -, hn, rfl, rfl, rfl⟩
    have hn' : Lexeme.keyword w s = some n := hn
    simp only [Lexeme.keyword] at hn'
    split at hn'
    next hstart =>
      obtain ⟨hword, hlength⟩ := Option.filter_eq_some_iff.mp hn'
      obtain rfl := beq_iff_eq.mp hlength
      obtain ⟨t, rfl⟩ := List.isPrefixOf_iff_prefix.mp hstart
      exact ⟨hn, rfl, by simp, by simp⟩
    next => cases hn'
  · rintro ⟨hn, rfl, rfl, rfl⟩
    exact ⟨w.length, by simp [Lexeme.plain, hn], hn, rfl, by simp, by simp⟩

theorem Gap.areGaps {fresh : Bool} {g : List Tree} (h : Gap fresh s g rest) : AreGaps g := by
  induction h with
  | stop => exact fun _ ht => absurd ht nofun
  | @next fresh s rest f n ts hblank _ ih =>
    refine List.forall_mem_cons.mpr ⟨?_, ih⟩
    rcases Lexeme.form_of_blank hblank with rfl | rfl
    · obtain ⟨rfl, -⟩ := Lexeme.blank_space hblank
      rw [← List.prefix_iff_eq_take.mp (List.takeWhile_prefix _)]
      exact .blank (List.all_eq_true.mpr fun c hc => List.mem_takeWhile_imp hc)
    · have hcomment : Lexeme.blank fresh (s.take n) = some (.comment, some (s.take n).length) := by
        rw [List.length_take_of_le (Lexeme.blank_le hblank).2]
        exact Lexeme.blank_take hblank
      exact .comment hcomment

theorem areGaps_of_gap {g : List Tree} (h : gap? s = some (g, rest)) : AreGaps g :=
  (gap?_eq_some.mp h).areGaps

/-- The word is not longer where the text follows it. -/
def EndsWord (w s : Text) : Prop := Lexeme.keyword w (w ++ s) = some w.length

/-- The name that a function gives itself, if there is one, with the gap before it: its trees, and
the text before and behind it. -/
inductive OwnName : Option Text → List Tree → Text → Text → Prop
  | none {s : Text} : OwnName none [] s s
  | some {s s' : Text} {g : List Tree} {n : Nat} : gap? s = some (g, s') →
      Lexeme.ownName s' = some n →
      OwnName (some (s'.take n)) (g ++ [.leaf .name .identifier (s'.take n)]) s (s'.drop n)

/-- What is read in a function before its parameters: its trees, and the text before and behind
it. -/
inductive HeadRead : (isAsync : Bool) → Option Text → List Tree → Text → Text → Prop
  | plain {own : Option Text} {ts g : List Tree} {s s₁ s₂ : Text} : EndsWord "function" s →
      OwnName own ts s s₁ → gap? s₁ = some (g, s₂) →
      HeadRead false own (.leaf .plain .token "function" :: (ts ++ g))
        (Text.ofString "function" ++ s) s₂
  | async {own : Option Text} {head g : List Tree} {s s₁ s₂ : Text} : EndsWord "async" s →
      gap? s = some (g, s₁) → hasNewline g = false → HeadRead false own head s₁ s₂ →
      HeadRead true own (.leaf .plain .token "async" :: (g ++ head))
        (Text.ofString "async" ++ s) s₂

theorem HeadRead.head {isAsync : Bool} {own : Option Text} {head : List Tree}
    (h : HeadRead isAsync own head s rest) : Head isAsync own head := by
  induction h with
  | plain _ hown hgap =>
    cases hown with
    | none => exact .plain (areGaps_of_gap hgap)
    | some hgap' =>
      rw [List.append_assoc, List.singleton_append]
      exact .named (areGaps_of_gap hgap') (areGaps_of_gap hgap)
  | async _ hgap _ _ ih => exact .async (areGaps_of_gap hgap) ih

namespace FunctionParts

/-- The parts stand in the text one after the other, up to `rest`, with gaps between them. -/
inductive IsRead (p : FunctionParts) : Text → Text → Prop
  | intro {s s₁ s₂ s₃ rest : Text} {k k' : Bool} {body : Tree} :
      HeadRead p.isAsync p.own p.head s s₁ →
      Reads grammar (ref (.parameters {})) s₁ (.found k [p.parameters] s₂) →
      gap? s₂ = some (p.between, s₃) →
      Reads grammar (ref (.block { inAsync := p.isAsync })) s₃ (.found k' [body] rest) →
      p.body = body.withRole .body → IsRead p s rest

end FunctionParts

theorem reads_ownName (h : Reads grammar (more (role .name ownName)) s (.found k ts rest)) :
    ∃ own, OwnName own ts s rest := by
  rcases reads_alt_found.mp h with h | ⟨-, h⟩
  · obtain ⟨_, g, _, _, _, hgap, hname, -, rfl⟩ := reads_seq_found.mp h
    obtain ⟨us, hleaf, rfl⟩ := reads_role_found.mp hname
    obtain ⟨n, -, hn, -, rfl, rfl⟩ := reads_leaf_found.mp hleaf
    exact ⟨_, .some (reads_gap_found.mp hgap).1 hn⟩
  · cases reads_done.mp h
    exact ⟨none, .none⟩

/-- The words of a function up to its parameters. -/
theorem reads_head {r : Part} (h : Reads grammar (seq (keyword "function")
      (seq (more (role .name ownName)) (seq gap r))) s (.found k ts rest)) :
    ∃ own head s' k' us, HeadRead false own head s s' ∧ Reads grammar r s' (.found k' us rest) ∧
      ts = head ++ us := by
  obtain ⟨_, _, _, _, _, hkeyword, h₁, -, rfl⟩ := reads_seq_found.mp h
  obtain ⟨hword, -, rfl, rfl⟩ := reads_keyword_found.mp hkeyword
  obtain ⟨_, us, _, _, _, hname, h₂, -, rfl⟩ := reads_seq_found.mp h₁
  obtain ⟨own, hown⟩ := reads_ownName hname
  obtain ⟨_, g, s', k', vs, hgap, hrest, -, rfl⟩ := reads_seq_found.mp h₂
  exact ⟨own, _, s', k', vs, .plain hword hown (reads_gap_found.mp hgap).1, hrest, by simp⟩

theorem reads_parameters_found
    (h : Reads grammar (ref (.parameters {})) s (.found k ts rest)) :
    ∃ us, ts = [.node .parameters .formalParameters us] := by
  obtain ⟨_, -, hview⟩ := reads_adapt_found.mp (reads_ref.mp h)
  obtain ⟨us, -, rfl⟩ := Option.map_eq_some_iff.mp hview
  exact ⟨us, rfl⟩

theorem singles_block (c : Context) : Singles grammar (ref (.block c)) := .ref .node

/-- Behind its head a function has its parameters and its body. -/
theorem reads_functionRest {isAsync : Bool} {own : Option Text} {head : List Tree} {s' : Text}
    (hhead : HeadRead isAsync own head s' s)
    (h : Reads grammar (functionRest isAsync false) s (.found k ts rest)) :
    ∃ p : FunctionParts, p.IsRead s' rest ∧
      p.tree = .node .plain .functionExpression (head ++ ts) := by
  obtain ⟨_, _, _, _, _, hparameters, h₁, -, rfl⟩ := reads_seq_found.mp h
  obtain ⟨_, between, _, _, _, hgap, hbody, -, rfl⟩ := reads_seq_found.mp h₁
  obtain ⟨ps, hps, rfl⟩ := reads_role_found.mp hparameters
  obtain ⟨bs, hbs, rfl⟩ := reads_role_found.mp hbody
  obtain ⟨us, rfl⟩ := reads_parameters_found hps
  obtain ⟨body, rfl⟩ := singles_block _ hbs
  exact ⟨⟨isAsync, own, head, .node .parameters .formalParameters us, between,
    body.withRole .body⟩, .intro hhead hps (reads_gap_found.mp hgap).1 hbs rfl, rfl⟩

/-- A function expression that is no generator has its parts. -/
theorem reads_function (h : Reads grammar (ref .functionLiteral) s (.found k [f] rest))
    (hform : f.form = .functionExpression) :
    ∃ p : FunctionParts, f = p.tree ∧ p.IsRead s rest := by
  rcases reads_alt_found.mp (reads_ref.mp h) with hplain | ⟨-, hothers⟩
  · obtain ⟨us, hus, heq⟩ := reads_node_found.mp hplain
    cases heq
    obtain ⟨own, head, s', _, vs, hhead, hrest, rfl⟩ := reads_head hus
    obtain ⟨p, hp, htree⟩ := reads_functionRest hhead hrest
    exact ⟨p, htree.symm, hp⟩
  rcases reads_alt_found.mp hothers with hasync | ⟨-, hothers⟩
  · obtain ⟨us, hus, heq⟩ := reads_node_found.mp hasync
    cases heq
    obtain ⟨_, _, _, _, _, hmark, hfunction, -, rfl⟩ := reads_seq_found.mp hus
    obtain ⟨_, _, _, _, g, hkeyword, hblanks, -, rfl⟩ := reads_seq_found.mp hmark
    obtain ⟨hword, -, rfl, rfl⟩ := reads_keyword_found.mp hkeyword
    obtain ⟨-, hgap, hline⟩ := reads_blanks_found.mp hblanks
    obtain ⟨own, head, s', _, vs, hhead, hrest, rfl⟩ := reads_head hfunction
    obtain ⟨p, hp, htree⟩ :=
      reads_functionRest (.async hword hgap (by simpa using hline) hhead) hrest
    exact ⟨p, by simp [htree], hp⟩
  · have hgenerator : Yields grammar (fun t => t.form ≠ .functionExpression)
        (alt (node .generatorExpression (all [keyword "function", gap, token "*",
            more (role .name ownName), gap, functionRest false true]))
          (node .generatorExpression (seq asyncMark (all [keyword "function", gap, token "*",
            more (role .name ownName), gap, functionRest true true])))) :=
      .alt (.node fun _ => nofun) (.node fun _ => nofun)
    exact absurd hform (hgenerator hothers f List.mem_cons_self)

theorem traces_function {F : Form} (hF : F ∉ operatorForms) (hparenthesized : F ≠ .parenthesized) :
    Traces grammar (·.form = F) (ref .functionLiteral) (ref (.expression {})) :=
  (traces_expression hF .self (.of_yields (.node fun _ h => hparenthesized h.symm))).1

/-- A function starts with a word of the language. -/
theorem text_of_function (h : Reads grammar (ref .functionLiteral) s (.found k [f] rest)) :
    ∃ w ∈ [Text.ofString "function", Text.ofString "async"], w <+: f.text := by
  have hkeyword : ∀ {w : Text} {r : Part} {s k us}, Reads grammar (seq (keyword w) r) s
      (.found k us rest) → w <+: Tree.texts us := by
    intro w r s k us h
    obtain ⟨_, _, _, _, _, hkeyword, -, -, rfl⟩ := reads_seq_found.mp h
    obtain ⟨-, -, rfl, -⟩ := reads_keyword_found.mp hkeyword
    exact ⟨_, rfl⟩
  have hasync : ∀ {r : Part} {s k us}, Reads grammar (seq asyncMark r) s (.found k us rest) →
      Text.ofString "async" <+: Tree.texts us := by
    intro r s k us h
    obtain ⟨_, _, _, _, _, hmark, -, -, rfl⟩ := reads_seq_found.mp h
    obtain ⟨_, _, _, _, _, hkeyword, -, -, rfl⟩ := reads_seq_found.mp hmark
    obtain ⟨-, -, rfl, -⟩ := reads_keyword_found.mp hkeyword
    exact ⟨_, by simp only [Tree.texts_append, List.append_assoc]; rfl⟩
  rcases reads_alt_found.mp (reads_ref.mp h) with h₁ | ⟨-, h₁⟩
  · obtain ⟨us, hus, heq⟩ := reads_node_found.mp h₁
    cases heq
    exact ⟨_, .head _, hkeyword hus⟩
  rcases reads_alt_found.mp h₁ with h₂ | ⟨-, h₂⟩
  · obtain ⟨us, hus, heq⟩ := reads_node_found.mp h₂
    cases heq
    exact ⟨_, .tail _ (.head _), hasync hus⟩
  rcases reads_alt_found.mp h₂ with h₃ | ⟨-, h₃⟩
  · obtain ⟨us, hus, heq⟩ := reads_node_found.mp h₃
    cases heq
    exact ⟨_, .head _, hkeyword hus⟩
  · obtain ⟨us, hus, heq⟩ := reads_node_found.mp h₃
    cases heq
    exact ⟨_, .tail _ (.head _), hasync hus⟩

end

end CompositeScript.Fragment
