import CompositeScript.Proofs.Fragment.Parsers
import CompositeScript.Proofs.Fragment.Trees
import CompositeScript.Fragment.Arrow
import Mathlib.Data.List.TakeWhile

/-!
Fragments in their wrapping.

A fragment is read in negated parentheses. If these hold a single expression, then the fragment is
that expression with white space around it, and the script around it has a fixed shape.
-/

namespace CompositeScript.Fragment

open Rule Grammar

/-! ## White space -/

/-- The trees of white space. -/
def blankTrees (b : Text) : List Tree := if b.isEmpty then [] else [.leaf .plain .blank b]

@[simp] theorem blankTrees_nil : blankTrees [] = [] := rfl

namespace Lexeme

variable {s : Text} {n : Nat} {fresh : Bool}

theorem spaces_eq_none : spaces s = none ↔ starts isSpace s = false := by
  cases s with
  | nil => exact ⟨fun _ => rfl, fun _ => rfl⟩
  | cons c s => cases hc : isSpace c <;> simp [spaces, positive, starts, hc]

theorem blank_space (h : blank fresh s = some (.blank, some n)) :
    n = (s.takeWhile isSpace).length ∧ 0 < n := by
  unfold blank at h
  split at h
  next m hm =>
    cases h
    simp only [spaces, positive] at hm
    split at hm
    · cases hm
    · cases hm; exact ⟨rfl, by omega⟩
  next =>
    split at h
    · cases h
    · split at h <;> cases h

theorem starts_of_blank (h : blank fresh s = none) : starts isSpace s = false := by
  unfold blank at h
  split at h
  · exact absurd h nofun
  next hspaces => exact spaces_eq_none.mp hspaces

theorem starts_drop_spaces : starts isSpace (s.drop (s.takeWhile isSpace).length) = false := by
  induction s with
  | nil => rfl
  | cons c s ih => cases hc : isSpace c <;> simp_all [starts]

end Lexeme

open Lexeme

/-- A gap without comments is white space. -/
theorem Gap.blanks {fresh : Bool} {s rest : Text} {ts : List Tree} (h : Gap fresh s ts rest)
    (hts : ∀ t ∈ ts, t.form ≠ .comment) :
    ∃ b : Text, ts = blankTrees b ∧ s = b ++ rest ∧ b.all isSpace = true := by
  cases h with
  | stop => exact ⟨[], rfl, rfl, rfl⟩
  | @next _ _ _ f n us hblank hrest =>
    obtain rfl : f = .blank := (form_of_blank hblank).resolve_right (hts _ List.mem_cons_self)
    obtain ⟨rfl, hpos⟩ := blank_space hblank
    cases hrest with
    | stop =>
      have htake : s.take (s.takeWhile isSpace).length = s.takeWhile isSpace :=
        (List.prefix_iff_eq_take.mp (List.takeWhile_prefix _)).symm
      refine ⟨s.takeWhile isSpace, ?_, ?_, ?_⟩
      · cases hs : s.takeWhile isSpace with
        | nil => rw [hs] at hpos; exact absurd hpos (Nat.lt_irrefl 0)
        | cons c b => rw [← hs, htake]; simp [blankTrees, hs]
      · conv_lhs => rw [← List.take_append_drop (s.takeWhile isSpace).length s, htake]
      · exact List.all_eq_true.mpr fun c hc => List.mem_takeWhile_imp hc
    | @next _ _ _ f' n' us' hblank' hrest' =>
      obtain rfl : f' = .blank :=
        (form_of_blank hblank').resolve_right (hts _ (.tail _ List.mem_cons_self))
      obtain ⟨rfl, hpos'⟩ := blank_space hblank'
      have hstart := starts_drop_spaces (s := s)
      cases hs : s.drop (s.takeWhile isSpace).length with
      | nil => simp [hs] at hpos'
      | cons c t =>
        rw [hs] at hstart hpos'
        have hc : isSpace c = false := by simpa [starts] using hstart
        simp [hc] at hpos'

theorem gap?_blanks {b s : Text} (hb : b.all isSpace = true) (hs : ∀ fresh, blank fresh s = none) :
    gap? (b ++ s) = some (blankTrees b, s) := by
  rw [gap?_eq_some]
  cases hb' : b with
  | nil => exact .stop (hs false)
  | cons c t =>
    have hstart := starts_of_blank (hs false)
    have hrun : (b ++ s).takeWhile isSpace = b := by
      rw [List.takeWhile_append_of_pos (fun c hc => List.all_eq_true.mp hb c hc)]
      cases s with
      | nil => simp
      | cons d s => simp [show isSpace d = false by simpa [starts] using hstart]
    have hblank : blank false (b ++ s) = some (.blank, some b.length) := by
      have hspaces : spaces (b ++ s) = some b.length := by
        rw [spaces, hrun, positive, if_neg (by simp [hb'])]
      rw [blank, hspaces]
    have hgap : Gap false (b ++ s) [.leaf .plain .blank ((b ++ s).take b.length)] s := by
      refine .next hblank ?_
      rw [List.drop_left]
      exact .stop (hs _)
    rw [List.take_left] at hgap
    rw [← hb']
    simpa [blankTrees, hb'] using hgap

/-! ## Tokens -/

section

variable {s rest : Text} {p stops : Text} {k : Bool} {ts : List Tree}

theorem mark_eq_some {n : Nat} : mark p stops s = some n ↔
    ∃ t, s = p ++ t ∧ n = p.length ∧ starts stops.contains t = false := by
  constructor
  · intro h
    simp only [mark] at h
    split at h
    next hs =>
      cases h
      obtain ⟨hstart, hstops⟩ := Bool.and_eq_true_iff.mp hs
      obtain ⟨t, rfl⟩ := List.isPrefixOf_iff_prefix.mp hstart
      exact ⟨t, rfl, rfl, by simpa using hstops⟩
    next => exact absurd h nofun
  · rintro ⟨t, rfl, rfl, hstops⟩
    have hstart : Text.startsWith (p ++ t) p = true :=
      List.isPrefixOf_iff_prefix.mpr (List.prefix_append p t)
    simp [mark, hstart, hstops]

theorem reads_mark_found {f : Form} {isFirm : Bool} :
    Reads grammar (.leaf f (.plain (mark p stops) isFirm)) s (.found k ts rest) ↔
      s = p ++ rest ∧ starts stops.contains rest = false ∧ k = isFirm ∧
        ts = [.leaf .plain f p] := by
  rw [reads_leaf_found]
  constructor
  · rintro ⟨n, -, hn, rfl, rfl, rfl⟩
    obtain ⟨t, rfl, rfl, hstops⟩ := mark_eq_some.mp hn
    simp [hstops]
  · rintro ⟨rfl, hstops, rfl, rfl⟩
    have hn : mark p stops (p ++ rest) = some p.length :=
      mark_eq_some.mpr ⟨rest, rfl, rfl, hstops⟩
    exact ⟨p.length, by simp [Lexeme.plain, hn], hn, rfl, by simp, by simp⟩

theorem not_starts_nil (s : Text) : starts (List.contains []) s = false := by cases s <;> rfl

theorem reads_token_found : Reads grammar (token p) s (.found k ts rest) ↔
    s = p ++ rest ∧ k = true ∧ ts = [.leaf .plain .token p] := by
  rw [token, reads_mark_found]
  simp [not_starts_nil]

theorem reads_comma_found : Reads grammar comma s (.found k ts rest) ↔
    s = Text.ofString "," ++ rest ∧ k = false ∧ ts = [.leaf .plain .token ","] := by
  rw [comma, reads_mark_found]
  simp [not_starts_nil]

theorem reads_gap_found : Reads grammar gap s (.found k ts rest) ↔
    gap? s = some (ts, rest) ∧ k = false := by
  rw [gap, reads_blanks_found]
  simp [and_comm]

end

/-! ## Towers of expressions

An expression is read by the rules of its operators, each built on the next, down to an operand. A
tree is read at the level that its form belongs to. -/

/-- The forms of the trees that an operator makes, or a name or literal. -/
def operatorForms : List Form :=
  [.sequence, .assignment, .augmentedAssignment, .arrowFunction, .yield, .ternary, .binary, .unary,
    .update, .await, .call, .member, .subscript, .new, .constant, .identifier, .privateName,
    .string, .number, .regex, .object, .array, .template, .classExpression, .element]

section

variable {F : Form} {target : Part}

/-- A tree of another form than operators make is an operand in parentheses or a function. -/
theorem traces_expression (hF : F ∉ operatorForms)
    (hfunction : Traces grammar (·.form = F) target (ref .functionLiteral))
    (hparentheses : Traces grammar (·.form = F) target (parentheses {})) :
    Traces grammar (·.form = F) target (ref (.expression {})) ∧
      Traces grammar (·.form = F) target (ref (.unary {})) := by
  have hnode : ∀ {f : Form} {r : Part}, f ∈ operatorForms →
      Yields grammar (fun t => ¬ t.form = F) (.node f r) :=
    fun hf => .node fun _ h => hF (h ▸ hf)
  have hleaf : ∀ {f : Form} {l : Lexeme}, f ∈ operatorForms →
      Yields grammar (fun t => ¬ t.form = F) (.leaf f l) :=
    fun hf => .leaf fun _ h => hF (h ▸ hf)
  have hprimary : Traces grammar (·.form = F) target (ref (.primary {})) := by
    refine .ref (.any ?_)
    simp only [List.forall_mem_cons, List.not_mem_nil, false_implies, implies_true, and_true]
    refine ⟨hfunction, .of_yields (hleaf (by decide)), .of_yields (.any ?_), hparentheses,
      .of_yields (hleaf (by decide)), .of_yields (hleaf (by decide)),
      .of_yields (hnode (by decide)), .of_yields (hnode (by decide)),
      .ref (.of_yields (hnode (by decide))), .ref (.of_yields (hnode (by decide))),
      .of_yields (hleaf (by decide)), .ref (.of_yields (hnode (by decide))),
      .of_yields (.seq (hleaf (by decide)) .refuse), .of_yields (.seq (hleaf (by decide)) .refuse)⟩
    intro r hr
    obtain ⟨w, -, rfl⟩ := List.mem_map.mp hr
    exact hleaf (by decide)
  have hchain : Traces grammar (·.form = F) target (ref (.chain {})) := by
    refine .ref (.grow (q := fun u => ¬ u.form = F) (.any ?_) (fun t => .any ?_)
      fun hu hv => (Tree.form_of_lead hv).1 ▸ hu)
    · simp only [List.forall_mem_cons, List.not_mem_nil, false_implies, implies_true, and_true]
      exact ⟨.of_yields (.alt (hnode (by decide)) (hnode (by decide))),
        .ref (.of_yields (hnode (by decide))), hprimary⟩
    · simp only [List.forall_mem_cons, List.not_mem_nil, false_implies, implies_true, and_true]
      exact ⟨hnode (by decide), hnode (by decide), hnode (by decide),
        .alt (hnode (by decide)) (hnode (by decide)), hnode (by decide)⟩
  have hunary : Traces grammar (·.form = F) target (ref (.unary {})) := by
    refine .ref (.any ?_)
    simp only [List.forall_mem_cons, List.not_mem_nil, false_implies, implies_true, and_true]
    exact ⟨.of_yields (hnode (by decide)), .of_yields (hnode (by decide)),
      .of_yields (hnode (by decide)),
      .grow hchain (fun _ => hnode (by decide)) fun hu hv => (Tree.form_of_leadOnce hv).1 ▸ hu⟩
  have hbinary : Traces grammar (·.form = F) target (ref (.binary {})) :=
    .ref (.grow hunary (fun _ => hnode (by decide)) fun hu hv => (Tree.form_of_lead hv).1 ▸ hu)
  have hconditional : Traces grammar (·.form = F) target (ref (.conditional {})) :=
    .ref (.grow hbinary (fun _ => hnode (by decide)) fun hu hv => (Tree.form_of_lead hv).1 ▸ hu)
  have hassignment : Traces grammar (·.form = F) target (ref (.assignment {})) := by
    refine .ref (.any ?_)
    simp only [List.forall_mem_cons, List.not_mem_nil, false_implies, implies_true, and_true]
    refine ⟨.of_yields (hnode (by decide)), .of_yields (hnode (by decide)),
      .grow (q := fun u => ¬ u.form = F) hconditional (fun t => .any ?_)
        fun hu hv => (Tree.form_of_attach hv).1 ▸ hu⟩
    simp only [List.forall_mem_cons, List.not_mem_nil, false_implies, implies_true, and_true]
    exact ⟨hnode (by decide), hnode (by decide), hnode (by decide)⟩
  exact ⟨.ref (.grow hassignment (fun _ => hnode (by decide))
    fun hu hv => (Tree.form_of_lead hv).1 ▸ hu), hunary⟩

end

/-- A plain tree that is no sequence, as the parts of an expression are: whoever reads them gives
them their roles. -/
def Tree.IsItem (t : Tree) : Prop := t.role = .plain ∧ t.form ≠ .sequence

theorem yields_item : Yields grammar Tree.IsItem (ref (.unary {})) ∧
    Yields grammar Tree.IsItem (ref (.assignment {})) := by
  have hnode : ∀ {f : Form} {r : Part}, f ≠ .sequence → Yields grammar Tree.IsItem (.node f r) :=
    fun h => .node fun _ => ⟨rfl, h⟩
  have hleaf : ∀ {f : Form} {l : Lexeme}, f ≠ .sequence → Yields grammar Tree.IsItem (.leaf f l) :=
    fun h => .leaf fun _ => ⟨rfl, h⟩
  have hjoin : ∀ {u v : Tree}, u.IsItem → v.form = u.form ∧ v.role = u.role → v.IsItem :=
    fun hu h => ⟨h.2.trans hu.1, h.1 ▸ hu.2⟩
  have hfunction : Yields grammar Tree.IsItem (ref .functionLiteral) := by
    refine .ref (.any ?_)
    simp only [List.forall_mem_cons, List.not_mem_nil, false_implies, implies_true, and_true]
    exact ⟨hnode nofun, hnode nofun, hnode nofun, hnode nofun⟩
  have hprimary : Yields grammar Tree.IsItem (ref (.primary {})) := by
    refine .ref (.any ?_)
    simp only [List.forall_mem_cons, List.not_mem_nil, false_implies, implies_true, and_true]
    refine ⟨hfunction, hleaf nofun, .any ?_, hnode nofun, hleaf nofun, hleaf nofun, hnode nofun,
      hnode nofun, .ref (hnode nofun), .ref (hnode nofun), hleaf nofun, .ref (hnode nofun),
      .seq (hleaf nofun) .refuse, .seq (hleaf nofun) .refuse⟩
    intro r hr
    obtain ⟨w, -, rfl⟩ := List.mem_map.mp hr
    exact hleaf nofun
  have hchain : Yields grammar Tree.IsItem (ref (.chain {})) := by
    refine .ref (.grow (q := Tree.IsItem) (.any ?_) (fun t => .any ?_)
      fun hu hv => hjoin hu (Tree.form_of_lead hv))
    · simp only [List.forall_mem_cons, List.not_mem_nil, false_implies, implies_true, and_true]
      exact ⟨.alt (hnode nofun) (hnode nofun), .ref (hnode nofun), hprimary⟩
    · simp only [List.forall_mem_cons, List.not_mem_nil, false_implies, implies_true, and_true]
      exact ⟨hnode nofun, hnode nofun, hnode nofun, .alt (hnode nofun) (hnode nofun), hnode nofun⟩
  have hunary : Yields grammar Tree.IsItem (ref (.unary {})) := by
    refine .ref (.any ?_)
    simp only [List.forall_mem_cons, List.not_mem_nil, false_implies, implies_true, and_true]
    exact ⟨hnode nofun, hnode nofun, hnode nofun,
      .grow hchain (fun _ => hnode nofun) fun hu hv => hjoin hu (Tree.form_of_leadOnce hv)⟩
  have hconditional : Yields grammar Tree.IsItem (ref (.conditional {})) :=
    .ref (.grow (.ref (.grow hunary (fun _ => hnode nofun)
      fun hu hv => hjoin hu (Tree.form_of_lead hv))) (fun _ => hnode nofun)
      fun hu hv => hjoin hu (Tree.form_of_lead hv))
  refine ⟨hunary, .ref (.any ?_)⟩
  simp only [List.forall_mem_cons, List.not_mem_nil, false_implies, implies_true, and_true]
  refine ⟨hnode nofun, hnode nofun, .grow (q := Tree.IsItem) hconditional (fun t => .any ?_)
    fun hu hv => hjoin hu (Tree.form_of_attach hv)⟩
  simp only [List.forall_mem_cons, List.not_mem_nil, false_implies, implies_true, and_true]
  exact ⟨hnode nofun, hnode nofun, hnode nofun⟩

/-! ## The shape of a wrapped fragment -/

theorem form_ne_comment {ts : List Tree} (hts : ts.filter Tree.isNamed = []) :
    ∀ t ∈ ts, t.form ≠ .comment := by
  intro t ht hform
  have := List.filter_eq_nil_iff.mp hts t ht
  simp [Tree.isNamed, hform] at this

theorem form_of_mem_gap {s rest : Text} {ts : List Tree} {fresh : Bool} {t : Tree}
    (h : Gap fresh s ts rest) (ht : t ∈ ts.filter Tree.isNamed) : t.form = .comment := by
  obtain ⟨ht, hnamed⟩ := List.mem_filter.mp ht
  obtain ⟨x, rfl | rfl⟩ := h.leaves t ht
  · exact absurd hnamed (by simp [Tree.isNamed, Tree.form])
  · rfl

/-- Parentheses that no arrow follows hold an expression between two gaps. -/
theorem reads_parentheses_found {s rest : Text} {k : Bool} {t : Tree}
    (h : Reads grammar (parentheses {}) s (.found k [t] rest))
    (hrest : ∀ k ts v, ¬ Reads grammar (seq lineGap (token "=>")) rest (.found k ts v)) :
    ∃ (s₁ s₂ s₃ : Text) (before after : List Tree) (e : Tree) (k' : Bool),
      s = Text.ofString "(" ++ s₁ ∧ Gap false s₁ before s₂ ∧
      Reads grammar (ref (.expression {})) s₂ (.found k' [e] s₃) ∧
      Gap false s₃ after (Text.ofString ")" ++ rest) ∧
      t = .node .plain .parenthesized (.leaf .plain .token "(" ::
        (before ++ e :: (after ++ [.leaf .plain .token ")"]))) := by
  obtain ⟨us, hparts, ht⟩ := reads_node_found.mp h
  cases ht
  obtain ⟨_, _, s₁, _, us₁, hopen, h₁, -, rfl⟩ := reads_seq_found.mp hparts
  obtain ⟨rfl, -, rfl⟩ := reads_token_found.mp hopen
  obtain ⟨_, before, s₂, _, us₂, hgap, h₂, -, rfl⟩ := reads_seq_found.mp h₁
  -- What is good only as a parameter list wants an arrow behind it.
  have honly : ∀ {us v k}, ¬ Reads grammar
      (seq (optional (seq (spread {}) gap)) (seq (token ")") (ahead (seq lineGap (token "=>"))))) v
        (.found k us rest) := by
    intro us v k h
    obtain ⟨_, _, _, _, _, -, hclose, -, -⟩ := reads_seq_found.mp h
    obtain ⟨_, _, _, _, _, -, hahead, -, -⟩ := reads_seq_found.mp hclose
    obtain ⟨habsent, -, -, rfl⟩ := reads_refuse_found.mp hahead
    obtain ⟨k, us, v, harrow⟩ := reads_refuse_absent.mp habsent
    exact hrest k us v harrow
  obtain ⟨_, _, s₃, _, us₃, hexpr, h₃, -, rfl⟩ := reads_seq_found.mp
    ((reads_alt_found.mp h₂).resolve_right fun h => honly h.2)
  obtain ⟨_, after, s₄, _, us₄, hgap', h₄, -, rfl⟩ := reads_seq_found.mp h₃
  rcases reads_alt_found.mp h₄ with hclose | ⟨-, h₅⟩
  · obtain ⟨rfl, -, rfl⟩ := reads_token_found.mp hclose
    obtain ⟨_, _, _, _, e, _, _, _, rfl⟩ := reads_grow_found.mp (reads_ref.mp hexpr)
    exact ⟨s₁, s₂, s₃, before, after, e, _, rfl, gap?_eq_some.mp (reads_gap_found.mp hgap).1,
      hexpr, gap?_eq_some.mp (reads_gap_found.mp hgap').1, by simp⟩
  · obtain ⟨_, _, _, _, _, -, h₆, -, -⟩ := reads_seq_found.mp h₅
    obtain ⟨_, _, _, _, _, -, h₇, -, -⟩ := reads_seq_found.mp h₆
    exact absurd h₇ honly

theorem reads_parentheses {s rest : Text} {k : Bool} {t f : Tree}
    (h : Reads grammar (parentheses {}) s (.found k [t] rest)) (hf : t.onlyChild? = some f)
    (hcomment : f.form ≠ .comment)
    (hrest : ∀ k ts v, ¬ Reads grammar (seq lineGap (token "=>")) rest (.found k ts v)) :
    ∃ (b a : Text) (k' : Bool),
      s = Text.ofString "(" ++ (b ++ (f.text ++ (a ++ (Text.ofString ")" ++ rest)))) ∧
      b.all isSpace = true ∧ a.all isSpace = true ∧
      Reads grammar (ref (.expression {})) (f.text ++ (a ++ (Text.ofString ")" ++ rest)))
        (.found k' [f] (a ++ (Text.ofString ")" ++ rest))) ∧
      t = .node .plain .parenthesized (.leaf .plain .token "(" ::
        (blankTrees b ++ f :: (blankTrees a ++ [.leaf .plain .token ")"]))) := by
  obtain ⟨s₁, s₂, s₃, before, after, e, k', rfl, hbefore, hexpr, hafter, rfl⟩ :=
    reads_parentheses_found h hrest
  have hnamed : before.filter Tree.isNamed ++ ([e].filter Tree.isNamed ++
      after.filter Tree.isNamed) = [f] := by
    have honly := Tree.onlyChild?_eq_some.mp hf
    rw [Tree.children, ← List.singleton_append (x := e), List.filter_cons_of_neg (by decide),
      List.filter_append, List.filter_append, List.filter_append] at honly
    simpa [Tree.isNamed, Tree.form] using honly
  obtain ⟨hb, he, ha⟩ := filter_between hnamed
    (fun hmem => hcomment (form_of_mem_gap hbefore hmem))
    (fun hmem => hcomment (form_of_mem_gap hafter hmem))
  obtain rfl : e = f := by
    have hmem : f ∈ [e].filter Tree.isNamed := by rw [he]; exact List.mem_cons_self
    exact (List.mem_singleton.mp (List.mem_filter.mp hmem).1).symm
  obtain ⟨b, rfl, rfl, hbs⟩ := hbefore.blanks (form_ne_comment hb)
  obtain ⟨a, rfl, rfl, has⟩ := hafter.blanks (form_ne_comment ha)
  have htext := hexpr.texts grammar_keepsText keepsText_ref
  simp only [Tree.texts, List.append_nil] at htext
  refine ⟨b, a, k', by rw [htext], hbs, has, ?_, rfl⟩
  rw [htext]
  exact hexpr

/-! ### The negation -/

section

variable {s rest : Text} {k : Bool} {e operand : Tree}

/-- Nothing grows to a tree that no step joins. -/
theorem Grows.eq_of_join {σ : Type} {G : σ → Rule σ} {join : Tree → Tree → Option Tree}
    {step : Tree → Rule σ} {t u : Tree} (h : Grows G join step t s k u rest)
    (hjoin : ∀ v, join t v = none) : u = t ∧ rest = s := by
  cases h with
  | stop => exact ⟨rfl, rfl⟩
  | loose => exact ⟨rfl, rfl⟩
  | next _ hv => rw [hjoin] at hv; exact absurd hv nofun

theorem attach_eq_none {t : Tree} (h : t.form ∈ [Form.unary, .binary, .ternary]) (u : Tree) :
    t.attach u = none := by
  unfold Tree.attach
  cases t with
  | leaf r f x =>
    simp only [Tree.form, List.mem_cons, List.not_mem_nil, or_false] at h
    rcases h with rfl | rfl | rfl <;> split <;>
      simp [Tree.asWholeTarget, Tree.form, Tree.asTarget, Tree.standsForVariable,
        Tree.isReference, Tree.asArrowHead]
  | node r f ts =>
    simp only [Tree.form, List.mem_cons, List.not_mem_nil, or_false] at h
    rcases h with rfl | rfl | rfl <;> split <;>
      simp [Tree.asWholeTarget, Tree.form, Tree.asTarget, Tree.standsForVariable,
        Tree.isReference, Tree.asArrowHead, Tree.asyncParameters?]

/-- No child of a tree that a step has led to is an argument. -/
theorem child?_of_lead {t u v : Tree} (hu : ∀ c ∈ u.children, c.role ≠ .argument)
    (h : Tree.lead .plain t u = some v) : v.child? .argument = none := by
  cases u with
  | leaf => exact absurd h nofun
  | node r f us =>
    cases h
    refine List.find?_eq_none.mpr fun c hc => ?_
    rcases List.mem_cons.mp hc with rfl | hc
    · simp
    · simpa using hu c hc

theorem role_ne_argument {r : Part} (h : Yields grammar Tree.IsItem r) :
    Yields grammar (·.role ≠ .argument) r :=
  fun _ _ _ _ hr t ht hargument => absurd ((h hr t ht).1.symm.trans hargument) nofun

/-- A tree with an argument has not grown by steps that read none. -/
theorem Grows.eq_of_argument {step : Tree → Part} {t u : Tree}
    (h : Grows grammar (Tree.lead .plain) step t s k u rest)
    (hstep : ∀ t, Yields grammar (fun v => ∀ c ∈ v.children, c.role ≠ .argument) (step t))
    (hu : u.child? .argument = some operand) : u = t ∧ rest = s := by
  rcases h.last with ⟨rfl, rfl, -⟩ | ⟨_, _, _, _, _, hread, hjoin⟩
  · exact ⟨rfl, rfl⟩
  · have hnone := child?_of_lead (hstep _ hread _ List.mem_cons_self) hjoin
    rw [hnone] at hu
    cases hu

/-- What has grown by nodes of one form has that form. -/
theorem Grows.form_of_node {f : Form} {part : Tree → Part} {t u : Tree}
    (h : Grows grammar (Tree.lead .plain) (fun t => .node f (part t)) t s k u rest) :
    u = t ∨ u.form = f := by
  rcases h.last with ⟨rfl, -, -⟩ | ⟨_, _, _, _, _, hread, hjoin⟩
  · exact .inl rfl
  · obtain ⟨_, -, heq⟩ := reads_node_found.mp hread
    cases heq
    exact .inr (Tree.form_of_lead hjoin).1

theorem singles_unary : Singles grammar (ref (.unary {})) :=
  .ref (.alt .node (.alt .node (.alt .node .grow)))

/-- The operator and its operand. -/
theorem reads_operator
    (h : Reads grammar (ref (.unary {})) (Text.ofString "!(" ++ s) (.found k [e] rest)) :
    ∃ k' t, e = .node .plain .unary [.leaf .plain .token "!", t.withRole .argument] ∧
      Reads grammar (ref (.unary {})) (Text.ofString "(" ++ s) (.found k' [t] rest) := by
  have hothers : Reads grammar
      (any [node .update (spaced [alt (token "++") (token "--"), ref (.unary {})]),
        node .await (seq (wordOperator false "await" gap) (ref (.unary {}))),
        grow (Tree.leadOnce .plain) (ref (.chain {})) fun _ =>
          node .update (seq lineGap (alt (token "++") (token "--")))])
      (Text.ofString "!(" ++ s) .absent := .absent_of_run 20 rfl
  obtain ⟨us, hparts, heq⟩ := reads_node_found.mp
    ((reads_alt_found.mp (reads_ref.mp h)).resolve_right fun h => hothers.not_found h.2)
  cases heq
  obtain ⟨_, _, s₁, _, _, hoperator, hrest, -, rfl⟩ := reads_seq_found.mp hparts
  obtain ⟨n, -, hn, -, rfl, rfl⟩ := reads_leaf_found.mp hoperator
  obtain rfl : 1 = n := Option.some.inj hn
  obtain ⟨_, _, s₂, _, _, hblanks, hargument, -, rfl⟩ := reads_seq_found.mp hrest
  obtain ⟨rfl, rfl⟩ : [] = _ ∧ Text.ofString "(" ++ s = s₂ := by
    have hnone : gap? (Text.ofString "(" ++ s) = some ([], Text.ofString "(" ++ s) := rfl
    simpa using hnone.symm.trans (reads_gap_found.mp hblanks).1
  obtain ⟨ts, hread, rfl⟩ := reads_role_found.mp hargument
  obtain ⟨t, rfl⟩ := singles_unary hread
  exact ⟨_, t, rfl, hread⟩

/-- Nothing is attached to operands that start with the operator, so they make up the whole of an
expression without commas. -/
theorem reads_conditional_of_assignment
    (h : Reads grammar (ref (.assignment {})) (Text.ofString "!(" ++ s) (.found k [e] rest)) :
    ∃ k', Reads grammar (ref (.conditional {})) (Text.ofString "!(" ++ s) (.found k' [e] rest) := by
  have hyield : Reads grammar (yield {}) (Text.ofString "!(" ++ s) .absent := .absent_of_run 20 rfl
  have hasync : Reads grammar (asyncArrow {}) (Text.ofString "!(" ++ s) .absent :=
    .absent_of_run 20 rfl
  have hoperation := (Reads.alt_right hasync).mp ((Reads.alt_right hyield).mp (reads_ref.mp h))
  obtain ⟨_, c, _, _, _, hconditional, hattached, -, heq⟩ := reads_grow_found.mp hoperation
  cases heq
  obtain ⟨_, b, _, _, _, hbinary, hternary, -, heq⟩ :=
    reads_grow_found.mp (reads_ref.mp hconditional)
  cases heq
  obtain ⟨_, u, _, _, _, hunary, hoperators, -, heq⟩ :=
    reads_grow_found.mp (reads_ref.mp hbinary)
  cases heq
  obtain ⟨_, _, rfl, -⟩ := reads_operator hunary
  have hform : c.form ∈ [Form.unary, .binary, .ternary] := by
    rcases hternary.form_of_node with rfl | hc
    · rcases hoperators.form_of_node with rfl | hb
      · simp [Tree.form]
      · simp [hb]
    · simp [hc]
  obtain ⟨rfl, rfl⟩ := hattached.eq_of_join (attach_eq_none hform)
  exact ⟨_, hconditional⟩

/-- At no level from the expression down to the operator has a tree with an argument grown. -/
theorem reads_negation (h : Reads grammar (ref (.expression {})) (Text.ofString "!(" ++ s)
      (.found k [e] rest)) (he : e.child? .argument = some operand) :
    ∃ k' t, e = .node .plain .unary [.leaf .plain .token "!", t.withRole .argument] ∧
      Reads grammar (ref (.unary {})) (Text.ofString "(" ++ s) (.found k' [t] rest) ∧
      operand = t.withRole .argument := by
  have hgap : Yields grammar (·.role ≠ .argument) gap := .blanks (fun _ => nofun) fun _ => nofun
  have hleaf : ∀ (f : Form) (l : Lexeme), Yields grammar (·.role ≠ .argument) (.leaf f l) :=
    fun _ _ => .leaf fun _ => nofun
  have hunary := role_ne_argument yields_item.1
  have hassignment := role_ne_argument yields_item.2
  obtain ⟨_, _, _, _, _, hread₁, hgrows₁, -, heq⟩ := reads_grow_found.mp (reads_ref.mp h)
  cases heq
  obtain ⟨rfl, rfl⟩ := hgrows₁.eq_of_argument (fun _ => .children (.all (by
    simp only [List.forall_mem_cons, List.not_mem_nil, false_implies, implies_true, and_true]
    exact ⟨hgap, hleaf _ _, hgap, hassignment⟩))) he
  obtain ⟨_, hread₂⟩ := reads_conditional_of_assignment hread₁
  obtain ⟨_, _, _, _, _, hread₃, hgrows₃, -, heq⟩ := reads_grow_found.mp (reads_ref.mp hread₂)
  cases heq
  obtain ⟨rfl, rfl⟩ := hgrows₃.eq_of_argument (fun _ => .children (.all (by
    simp only [List.forall_mem_cons, List.not_mem_nil, false_implies, implies_true, and_true]
    exact ⟨hgap, hleaf _ _, hgap, hassignment, hgap, hleaf _ _, hgap, hassignment⟩))) he
  obtain ⟨_, _, _, _, _, hread₄, hgrows₄, -, heq⟩ := reads_grow_found.mp (reads_ref.mp hread₃)
  cases heq
  obtain ⟨rfl, rfl⟩ := hgrows₄.eq_of_argument (fun _ => .children (.all (by
    simp only [List.forall_mem_cons, List.not_mem_nil, false_implies, implies_true, and_true]
    exact ⟨hgap, hleaf _ _, hgap, hunary⟩))) he
  obtain ⟨k', t, rfl, hoperand⟩ := reads_operator hread₄
  refine ⟨k', t, rfl, hoperand, ?_⟩
  cases t <;> simpa [Tree.child?, Tree.children, Tree.role, Tree.withRole] using he.symm

end

/-! ### The script -/

theorem singles_statement : Singles grammar (ref (.statement {})) :=
  .ref (.alt (.ref .node) (.alt .node (.alt
    (.alt .node (.alt .node (.alt .node .node))) (.alt .node .node))))

theorem yields_statement : Yields grammar (·.isNamed = true) (ref (.statement {})) :=
  .ref (.alt (.ref (.node fun _ => rfl)) (.alt (.node fun _ => rfl) (.alt
    (.alt (.node fun _ => rfl) (.alt (.node fun _ => rfl)
      (.alt (.node fun _ => rfl) (.node fun _ => rfl))))
    (.alt (.node fun _ => rfl) (.node fun _ => rfl)))))

theorem yields_semicolon : Yields grammar (·.children = []) semicolon :=
  .alt (.seq (.blanks (fun _ => rfl) fun _ => rfl) (.leaf fun _ => rfl))
    (.alt .refuse (.alt .refuse .refuse))

theorem reads_ahead_found {r : Part} {s rest : Text} {k : Bool} {ts : List Tree} :
    Reads grammar (ahead r) s (.found k ts rest) ↔
      (∃ k' us v, Reads grammar r s (.found k' us v)) ∧ k = false ∧ ts = [] ∧ rest = s := by
  rw [ahead, reads_refuse_found, reads_refuse_absent]

/-- A statement does not end before an arrow. -/
theorem semicolon_not_found {s rest v : Text} {k k' : Bool} {ts ts' : List Tree}
    (harrow : Reads grammar (seq lineGap (token "=>")) s (.found k' ts' v)) :
    ¬ Reads grammar semicolon s (.found k ts rest) := by
  obtain ⟨_, us, _, _, _, hline, htoken, -, -⟩ := reads_seq_found.mp harrow
  obtain ⟨rfl, -, -⟩ := reads_token_found.mp htoken
  obtain ⟨-, hgap, hnewline⟩ := reads_blanks_found.mp hline
  intro h
  rcases reads_alt_found.mp h with h | ⟨-, h⟩
  · obtain ⟨_, _, _, _, _, hgap', htoken', -, -⟩ := reads_seq_found.mp h
    rw [(reads_gap_found.mp hgap').1] at hgap
    cases hgap
    exact absurd (reads_token_found.mp htoken').1 nofun
  rcases reads_alt_found.mp h with h | ⟨-, h⟩
  · obtain ⟨⟨_, _, _, h⟩, -⟩ := reads_ahead_found.mp h
    obtain ⟨_, _, _, _, _, hgap', htoken', -, -⟩ := reads_seq_found.mp h
    rw [(reads_gap_found.mp hgap').1] at hgap
    cases hgap
    exact absurd (reads_token_found.mp htoken').1 nofun
  rcases reads_alt_found.mp h with h | ⟨-, h⟩
  · obtain ⟨⟨_, _, _, h⟩, -⟩ := reads_ahead_found.mp h
    obtain ⟨_, _, _, _, _, hgap', hfinish, -, -⟩ := reads_seq_found.mp h
    rw [(reads_gap_found.mp hgap').1] at hgap
    cases hgap
    have hpoint := reads_leaf_absent.mp (reads_refuse_found.mp hfinish).1
    exact absurd hpoint nofun
  · obtain ⟨⟨_, _, _, h⟩, -⟩ := reads_ahead_found.mp h
    obtain ⟨_, _, _, _, _, hgap', -, -, -⟩ := reads_seq_found.mp h
    obtain ⟨-, hgap', hnewline'⟩ := reads_blanks_found.mp hgap'
    rw [hgap'] at hgap
    cases hgap
    rw [hnewline'] at hnewline
    exact absurd hnewline nofun

/-- A statement that starts with a negation is an expression. -/
theorem reads_statement_negation {s : Text} {x : Reading} :
    Reads grammar (ref (.statement {})) (Text.ofString "!(" ++ s) x ↔
      Reads grammar (expressionStatement {}) (Text.ofString "!(" ++ s) x := by
  have hblock : Reads grammar (ref (.block {})) (Text.ofString "!(" ++ s) .absent :=
    .absent_of_run 20 rfl
  have hkeyword : Reads grammar (node .statement (keywordStatement {})) (Text.ofString "!(" ++ s)
      .absent := .absent_of_run 20 rfl
  have hfunction : Reads grammar functionDeclaration (Text.ofString "!(" ++ s) .absent :=
    .absent_of_run 20 rfl
  have hclass : Reads grammar (classDeclaration {}) (Text.ofString "!(" ++ s) .absent :=
    .absent_of_run 20 rfl
  rw [reads_ref]
  exact (Reads.alt_right hblock).trans ((Reads.alt_right hkeyword).trans
    ((Reads.alt_right hfunction).trans (Reads.alt_right hclass)))

theorem traces_parentheses_function :
    Traces grammar (·.form = .parenthesized) (parentheses {}) (ref .functionLiteral) :=
  .ref (.of_yields (.alt (.node fun _ => nofun) (.alt (.node fun _ => nofun)
    (.alt (.node fun _ => nofun) (.node fun _ => nofun)))))

/-- A script with one named child is a statement with white space behind it. -/
theorem reads_onlyStatement {s : Text} {script statement : Tree} {k : Bool}
    (hs : gap? s = some ([], s)) (h : Reads grammar (ref .program) s (.found k [script] []))
    (honly : script.onlyChild? = some statement) :
    ∃ (x : Text) (k' : Bool), x.all isSpace = true ∧
      Reads grammar (ref (.statement {})) s (.found k' [statement] x) ∧
      script = .node .plain .program (statement :: blankTrees x) := by
  obtain ⟨us, hparts, heq⟩ := reads_node_found.mp (reads_ref.mp h)
  cases heq
  obtain ⟨_, ts₁, s₁, _, us₁, hgap, hrest, -, rfl⟩ := reads_seq_found.mp hparts
  obtain ⟨rfl, rfl⟩ : [] = ts₁ ∧ s = s₁ := by
    simpa using hs.symm.trans (reads_gap_found.mp hgap).1
  obtain ⟨_, ts₂, s₂, _, us₂, hmany, hfinish, -, rfl⟩ := reads_seq_found.mp hrest
  obtain ⟨-, -, rfl, rfl⟩ := reads_refuse_found.mp hfinish
  have honly := Tree.onlyChild?_eq_some.mp honly
  simp only [Tree.children, List.nil_append, List.append_nil] at honly
  cases reads_many_found.mp hmany with
  | stop => cases honly
  | @next _ mid _ _ _ ts us hfirst hothers =>
    obtain ⟨_, _, mid₁, _, behind, hread, hgap', -, rfl⟩ := reads_seq_found.mp hfirst
    obtain ⟨st, rfl⟩ := singles_statement hread
    have hnamed : st.isNamed = true := yields_statement hread st List.mem_cons_self
    rw [List.append_assoc, List.singleton_append, List.filter_cons_of_pos hnamed,
      List.filter_append] at honly
    obtain ⟨rfl, hnil⟩ := List.cons.inj honly
    obtain ⟨hbehind, hus⟩ := List.append_eq_nil_iff.mp hnil
    cases hothers with
    | next hfirst' _ =>
      obtain ⟨_, _, _, _, _, hread', -, -, rfl⟩ := reads_seq_found.mp hfirst'
      obtain ⟨st', rfl⟩ := singles_statement hread'
      have hnamed' : st'.isNamed = true := yields_statement hread' st' List.mem_cons_self
      simp [List.filter_cons_of_pos hnamed'] at hus
    | stop =>
      obtain ⟨x, rfl, rfl, hx⟩ :=
        (gap?_eq_some.mp (reads_gap_found.mp hgap').1).blanks (form_ne_comment hbehind)
      rw [List.append_nil] at hread
      exact ⟨x, _, hx, hread, by simp⟩

/-- A statement whose only named child has an argument is that child and a semicolon. -/
theorem reads_negationStatement {s rest : Text} {statement negation operand : Tree} {k : Bool}
    (h : Reads grammar (ref (.statement {})) (Text.ofString "!(" ++ s)
      (.found k [statement] rest))
    (honly : statement.onlyChild? = some negation)
    (hargument : negation.child? .argument = some operand) :
    ∃ (mid : Text) (semi : List Tree) (k' k'' : Bool),
      Reads grammar (ref (.expression {})) (Text.ofString "!(" ++ s) (.found k' [negation] mid) ∧
      Reads grammar semicolon mid (.found k'' semi rest) ∧ semi.filter Tree.isNamed = [] ∧
      statement = .node .plain .expressionStatement (negation :: semi) := by
  obtain ⟨es, hes, heq⟩ := reads_node_found.mp (reads_statement_negation.mp h)
  cases heq
  obtain ⟨_, _, _, _, es', hrefuse, hes', -, rfl⟩ := reads_seq_found.mp hes
  obtain ⟨-, -, rfl, rfl⟩ := reads_refuse_found.mp hrefuse
  obtain ⟨_, _, mid, _, semi, hexpr, hsemi, -, rfl⟩ := reads_seq_found.mp hes'
  obtain ⟨_, _, _, _, e, -, -, -, rfl⟩ := reads_grow_found.mp (reads_ref.mp hexpr)
  have honly := Tree.onlyChild?_eq_some.mp honly
  simp only [Tree.children, List.nil_append, List.singleton_append] at honly
  -- The semicolon and the gap before it have no children, so the named child is the expression.
  have hmem : negation ∉ semi := by
    intro hmem
    rw [Tree.child?, yields_semicolon hsemi negation hmem] at hargument
    cases hargument
  have he : e.isNamed = true := by
    by_contra he
    rw [List.filter_cons_of_neg he] at honly
    exact hmem (List.mem_filter.mp (honly ▸ List.mem_cons_self)).1
  rw [List.filter_cons_of_pos he] at honly
  obtain ⟨rfl, hnamed⟩ := List.cons.inj honly
  exact ⟨mid, semi, _, _, hexpr, hsemi, hnamed, rfl⟩

/-- The end of a statement without a comment is a semicolon behind white space, or nothing. -/
theorem reads_semicolon {s rest : Text} {k : Bool} {ts : List Tree}
    (h : Reads grammar semicolon s (.found k ts rest)) (hts : ts.filter Tree.isNamed = []) :
    (∃ y : Text, y.all isSpace = true ∧ s = y ++ (Text.ofString ";" ++ rest) ∧
      ts = blankTrees y ++ [.leaf .plain .token ";"]) ∨ rest = s := by
  rcases reads_alt_found.mp h with h | ⟨-, h⟩
  · obtain ⟨_, us, _, _, _, hgap, htoken, -, rfl⟩ := reads_seq_found.mp h
    obtain ⟨rfl, -, rfl⟩ := reads_token_found.mp htoken
    have hus : us.filter Tree.isNamed = [] :=
      (List.append_eq_nil_iff.mp (List.filter_append _ _ ▸ hts)).1
    obtain ⟨y, rfl, rfl, hy⟩ :=
      (gap?_eq_some.mp (reads_gap_found.mp hgap).1).blanks (form_ne_comment hus)
    exact .inl ⟨y, hy, rfl, rfl⟩
  rcases reads_alt_found.mp h with h | ⟨-, h⟩
  · exact .inr (reads_ahead_found.mp h).2.2.2
  rcases reads_alt_found.mp h with h | ⟨-, h⟩
  · exact .inr (reads_ahead_found.mp h).2.2.2
  · exact .inr (reads_ahead_found.mp h).2.2.2

/-- The trees on the path through the script around a fragment. -/
theorem reads_route {c : Text} {script : Tree} {k : Bool}
    (h : Reads grammar (ref .program) (wrap c) (.found k [script] [])) (route : script.Route) :
    ∃ (x mid : Text) (semi : List Tree) (t : Tree) (k' k'' : Bool), x.all isSpace = true ∧
      Reads grammar (ref (.unary {})) (Text.ofString "(" ++ (c ++ Text.ofString ");"))
        (.found k' [t] mid) ∧
      Reads grammar semicolon mid (.found k'' semi x) ∧ semi.filter Tree.isNamed = [] ∧
      script = .node .plain .program (route.statement :: blankTrees x) ∧
      route.statement = .node .plain .expressionStatement (route.operation :: semi) ∧
      route.operation = .node .plain .unary [.leaf .plain .token "!", t.withRole .argument] ∧
      route.operand = t.withRole .argument := by
  obtain ⟨x, _, hx, hread, hscript⟩ := reads_onlyStatement rfl h route.only_statement
  have hwrap : wrap c = Text.ofString "!(" ++ (c ++ Text.ofString ");") := List.append_assoc _ _ _
  rw [hwrap] at hread
  obtain ⟨mid, semi, _, _, hexpr, hsemi, hnamed, hstatement⟩ :=
    reads_negationStatement hread route.only_operation route.argument
  obtain ⟨_, t, hoperation, hunary, hoperand⟩ := reads_negation hexpr route.argument
  exact ⟨x, mid, semi, t, _, _, hx, hunary, hsemi, hnamed, hscript, hstatement, hoperation,
    hoperand⟩

/-- The script around a fragment that is a single expression. -/
theorem reads_wrapped {c : Text} {script f : Tree} {k : Bool}
    (h : Reads grammar (ref .program) (wrap c) (.found k [script] [])) (route : script.Route)
    (hf : route.operand.onlyChild? = some f) (hcomment : f.form ≠ .comment) :
    ∃ (b a : Text) (k' : Bool), c = b ++ (f.text ++ a) ∧ b.all isSpace = true ∧
      a.all isSpace = true ∧
      Reads grammar (ref (.expression {})) (f.text ++ (a ++ Text.ofString ");"))
        (.found k' [f] (a ++ Text.ofString ");")) ∧
      script = Tree.wrapping (blankTrees b) f (blankTrees a) := by
  obtain ⟨x, mid, semi, t, _, _, hx, hunary, hsemi, hnamed, hscript, hstatement, hoperation,
    hoperand⟩ := reads_route h route
  have hread := (traces_expression (by decide) traces_parentheses_function .self).2 hunary
    (by simpa [hoperand] using route.form_operand)
  obtain ⟨b, a, k', htext, hb, ha, hf', rfl⟩ := reads_parentheses hread
    (by simpa [Tree.onlyChild?_eq_some, hoperand] using hf) hcomment
    fun _ _ _ harrow => semicolon_not_found harrow hsemi
  have htext := List.append_cancel_left htext
  rcases reads_semicolon hsemi hnamed with ⟨y, hy, rfl, rfl⟩ | rfl
  · obtain ⟨rfl, rfl, rfl⟩ := ends_with_semicolon (u := b ++ (f.text ++ a)) hx hy
      (by simpa using htext)
    exact ⟨b, a, k', rfl, hb, ha, hf', by rw [hscript, hstatement, hoperation]; rfl⟩
  · exact absurd (by simpa using htext) (not_ends_with_bracket (u := b ++ (f.text ++ a)) hx)

end CompositeScript.Fragment
