import CompositeScript.Proofs.Fragment.Operands

/-!
One list in parentheses, read in three ways.

The parameters of a function, the parentheses before an arrow and the arguments of a call are read
by different rules. Where the first reads a parameter list, each of the others reads the same parts,
if what follows allows for it.
-/

namespace CompositeScript.Fragment

namespace Tree

variable {t : Tree} {ts us : List Tree}

theorem unsequencedAll_append :
    unsequencedAll (ts ++ us) = unsequencedAll ts ++ unsequencedAll us := by
  induction ts with
  | nil => rfl
  | cons t ts ih => simp [unsequencedAll, ih]

theorem unsequenced_of_form (h : t.form ≠ .sequence) : t.unsequenced = [t] := by
  cases t with
  | leaf => simp [unsequenced]
  | node r f ts =>
    rw [unsequenced]
    rintro _ _ heq
    cases heq
    exact h rfl

theorem unsequencedAll_of_form (h : ∀ t ∈ ts, t.form ≠ .sequence) : unsequencedAll ts = ts := by
  induction ts with
  | nil => rfl
  | cons t ts ih =>
    rw [unsequencedAll, unsequenced_of_form (h t List.mem_cons_self),
      ih fun u hu => h u (.tail t hu)]
    rfl

theorem withRole_of_role {q : Role} (h : t.role = q) : t.withRole q = t := by
  cases t <;> cases h <;> rfl

end Tree

open Rule Grammar Fragment.Tree

section

variable {s mid rest : Text} {k k' : Bool} {t u : Tree} {ts : List Tree}

theorem unsequencedAll_gap (h : gap? s = some (ts, rest)) : unsequencedAll ts = ts := by
  refine unsequencedAll_of_form fun t ht => ?_
  obtain ⟨x, rfl | rfl⟩ := (gap?_eq_some.mp h).leaves t ht
  · exact nofun
  · exact nofun

/-! ## Parentheses before an arrow -/

theorem expression_absent_close (x : Text) :
    Reads grammar (ref (.expression {})) (Text.ofString ")" ++ x) .absent := by
  cases x with
  | nil => exact .absent_of_run 20 rfl
  | cons c x => exact .absent_of_run 20 rfl

theorem expression_absent_rest (x : Text) :
    Reads grammar (ref (.expression {})) (Text.ofString "..." ++ x) .absent := .absent_of_run 20 rfl

theorem spread_starts (h : Reads grammar (spread {}) s (.found k ts rest)) :
    ∃ x, s = Text.ofString "..." ++ x := by
  obtain ⟨us, h, -⟩ := reads_node_found.mp h
  obtain ⟨_, _, _, _, _, hmark, -, -, -⟩ := reads_seq_found.mp h
  exact ⟨_, (reads_token_found.mp hmark).1⟩

/-- A list may end in another way, if it can end so here. -/
theorem reads_listed {close : Part}
    (h : Reads grammar (listed {} (token ")")) s (.found k ts rest))
    (hclose : ∀ {s k ts}, Reads grammar (token ")") s (.found k ts rest) →
      Reads grammar close s (.found k ts rest)) :
    Reads grammar (listed {} close) s (.found k ts rest) := by
  obtain ⟨_, _, _, _, _, hopen, h₁, rfl, rfl⟩ := reads_seq_found.mp h
  obtain ⟨_, _, _, _, _, hgap, h₂, rfl, rfl⟩ := reads_seq_found.mp h₁
  refine hopen.seq (hgap.seq ?_)
  have honly : ∀ {s k ts}, Reads grammar (seq (optional (seq (spread {}) gap)) (token ")")) s
      (.found k ts rest) →
      Reads grammar (seq (optional (seq (spread {}) gap)) close) s (.found k ts rest) := by
    intro s k ts h
    obtain ⟨_, _, _, _, _, hrest, hend, rfl, rfl⟩ := reads_seq_found.mp h
    exact hrest.seq (hclose hend)
  rcases reads_alt_found.mp h₂ with h₃ | ⟨-, h₃⟩
  · obtain ⟨_, _, _, _, _, hexpr, h₄, rfl, rfl⟩ := reads_seq_found.mp h₃
    obtain ⟨_, _, _, _, _, hgap', h₅, rfl, rfl⟩ := reads_seq_found.mp h₄
    refine .alt_left (hexpr.seq (hgap'.seq ?_))
    rcases reads_alt_found.mp h₅ with h₆ | ⟨habsent, h₆⟩
    · exact h₆.alt_left
    · obtain ⟨_, _, _, _, _, hcomma, h₇, rfl, rfl⟩ := reads_seq_found.mp h₆
      obtain ⟨_, _, _, _, _, hgap'', h₈, rfl, rfl⟩ := reads_seq_found.mp h₇
      exact (Reads.alt_right habsent).mpr (hcomma.seq (hgap''.seq (honly h₈)))
  · refine (Reads.alt_right (reads_seq_absent.mpr (.inl ?_))).mpr (honly h₃)
    -- What is only a parameter list starts like no expression.
    obtain ⟨_, _, _, _, _, hrest, hend, -, -⟩ := reads_seq_found.mp h₃
    rcases reads_alt_found.mp hrest with hspread | ⟨-, hdone⟩
    · obtain ⟨_, _, _, _, _, hspread, -, -, -⟩ := reads_seq_found.mp hspread
      obtain ⟨x, rfl⟩ := spread_starts hspread
      exact expression_absent_rest x
    · cases reads_done.mp hdone
      rw [(reads_token_found.mp hend).1]
      exact expression_absent_close rest

/-- Before an arrow a parameter list is read in parentheses. -/
theorem reads_parentheses_of_listed (h : Reads grammar (listed {} (token ")")) s (.found k ts rest))
    (harrow : Reads grammar (ahead (seq lineGap (token "=>"))) rest (.found false [] rest)) :
    Reads grammar (parentheses {}) s (.found k [.node .plain .parenthesized ts] rest) := by
  refine (reads_listed h fun {s k ts} hclose => ?_).node
  have := hclose.seq harrow
  rwa [Bool.or_false, List.append_nil] at this

/-! ## Arguments -/

namespace Grammar

/-- An argument of a call. -/
def argument : Part := alt (spread {}) (ref (.assignment {}))

/-- One more argument. -/
def argumentStep : Part := all [gap, comma, gap, argument]

end Grammar

theorem argumentStep_absent (h : gap? s = some (ts, Text.ofString ")" ++ rest)) :
    Reads grammar argumentStep s .absent :=
  SkipsGap.absent (.seq rfl) h (.absent_of_run 20 rfl)

theorem argument_absent_close (x : Text) :
    Reads grammar argument (Text.ofString ")" ++ x) .absent := by
  cases x with
  | nil => exact .absent_of_run 20 rfl
  | cons c x => exact .absent_of_run 20 rfl

theorem assignment_absent_dots (x : Text) : ¬ Reads grammar (ref (.assignment {}))
    (Text.ofString "..." ++ x) (.found k ts rest) :=
  Reads.not_found (.absent_of_run 20 rfl)

/-- An expression is an argument. -/
theorem reads_argument (h : Reads grammar (ref (.assignment {})) s (.found k ts rest)) :
    Reads grammar argument s (.found k ts rest) := by
  refine (Reads.alt_right (reads_node_absent.mpr (reads_seq_absent.mpr (.inl ?_)))).mpr h
  rw [token, reads_leaf_absent, Lexeme.plain]
  cases hmark : Lexeme.mark (Text.ofString "...") [] s with
  | none => simp [hmark]
  | some n =>
    obtain ⟨x, rfl, -, -⟩ := eq_of_mark hmark
    exact absurd h (assignment_absent_dots x)

/-- One more member of a sequence is one more argument. -/
theorem reads_argumentStep
    (h : Reads grammar (all [gap, comma, gap, ref (.assignment {})]) s (.found k ts rest)) :
    Reads grammar argumentStep s (.found k ts rest) ∧ unsequencedAll ts = ts := by
  obtain ⟨_, _, _, _, _, hgap, h₁, rfl, rfl⟩ := reads_seq_found.mp h
  obtain ⟨_, _, _, _, _, hcomma, h₂, rfl, rfl⟩ := reads_seq_found.mp h₁
  obtain ⟨_, _, _, _, _, hgap', hitem, rfl, rfl⟩ := reads_seq_found.mp h₂
  refine ⟨hgap.seq (hcomma.seq (hgap'.seq (reads_argument hitem))), ?_⟩
  rw [unsequencedAll_append, unsequencedAll_append, unsequencedAll_append,
    unsequencedAll_gap (reads_gap_found.mp hgap).1, unsequencedAll_gap (reads_gap_found.mp hgap').1,
    unsequencedAll_of_form fun t ht => (yields_item.2 hitem t ht).2,
    (reads_comma_found.mp hcomma).2.2]
  rfl

/-- The members of a sequence are arguments, and more arguments may follow. -/
theorem repeats_of_grows (h : Grows grammar (lead .plain) (fun _ => sequenceStep) t s k u rest)
    (ht : t.role = .plain) : ∃ us, u.unsequenced = t.unsequenced ++ us ∧ ∀ {k' vs rest'},
      Repeats grammar argumentStep rest k' vs rest' →
        ∃ k'', Repeats grammar argumentStep s k'' (us ++ vs) rest' := by
  induction h with
  | stop => exact ⟨[], by simp, fun hmore => ⟨_, hmore⟩⟩
  | loose hstep hjoin =>
    obtain ⟨us, -, heq⟩ := reads_node_found.mp hstep
    cases heq
    exact absurd hjoin nofun
  | next hstep hjoin _ ih =>
    obtain ⟨ws, hws, heq⟩ := reads_node_found.mp hstep
    cases heq
    cases hjoin
    obtain ⟨us, hus, hmore⟩ := ih rfl
    obtain ⟨hstep', hws'⟩ := reads_argumentStep hws
    refine ⟨ws ++ us, ?_, fun hrest => ?_⟩
    · rw [hus, unsequenced, unsequencedAll, hws', withRole_of_role ht, List.append_assoc]
    · obtain ⟨k'', hk⟩ := hmore hrest
      rw [List.append_assoc]
      exact ⟨_, .next hstep' hk⟩

/-- Arguments up to the parenthesis behind them, and with it. -/
def ReadsArguments (s : Text) (ts : List Tree) (rest : Text) : Prop :=
  ∃ k, Reads grammar (seq (optional (all [separated argument, more comma, gap])) (token ")")) s
    (.found k ts rest)

theorem readsArguments_nil (rest : Text) :
    ReadsArguments (Text.ofString ")" ++ rest) [.leaf .plain .token ")"] rest := by
  have habsent : Reads grammar (all [separated argument, more comma, gap])
      (Text.ofString ")" ++ rest) .absent :=
    reads_seq_absent.mpr (.inl (reads_seq_absent.mpr (.inl (argument_absent_close rest))))
  exact ⟨_, ((Reads.alt_right habsent).mpr (reads_done.mpr rfl)).seq (reads_token _ _)⟩

theorem readsArguments_cons {end₁ end₂ : Text} {us ms gs : List Tree}
    (hitem : Reads grammar argument s (.found k ts mid))
    (hmany : ∃ k', Repeats grammar argumentStep mid k' us end₁)
    (hmore : Reads grammar (more comma) end₁ (.found false ms end₂))
    (hgap : gap? end₂ = some (gs, Text.ofString ")" ++ rest)) :
    ReadsArguments s (ts ++ (us ++ (ms ++ (gs ++ [.leaf .plain .token ")"])))) rest := by
  obtain ⟨k', hmany⟩ := hmany
  have hlist : Reads grammar (optional (all [separated argument, more comma, gap])) s
      (.found _ _ _) :=
    .alt_left ((hitem.seq (reads_many_found.mpr hmany)).seq (hmore.seq (reads_gap hgap)))
  exact ⟨_, by simpa using hlist.seq (reads_token (Text.ofString ")") rest)⟩

theorem moreComma_none (h : gap? s = some (ts, Text.ofString ")" ++ rest)) :
    Reads grammar (more comma) s (.found false [] s) :=
  (Reads.alt_right (SkipsGap.absent (.seq rfl) h (.absent_of_run 20 rfl))).mpr (reads_done.mpr rfl)

theorem reads_comma (x : Text) : Reads grammar comma (Text.ofString "," ++ x)
    (.found false [.leaf .plain .token ","] x) :=
  reads_comma_found.mpr ⟨rfl, rfl, rfl⟩

/-- What is only a parameter list ends with a rest, or there is nothing more in it. -/
theorem onlyParameters_cases
    (h : Reads grammar (seq (optional (seq (spread {}) gap)) (token ")")) s (.found k ts rest)) :
    (s = Text.ofString ")" ++ rest ∧ ts = [.leaf .plain .token ")"]) ∨
      ∃ k' us mid gs, Reads grammar (spread {}) s (.found k' [.node .plain .spread us] mid) ∧
        gap? mid = some (gs, Text.ofString ")" ++ rest) ∧
        ts = .node .plain .spread us :: (gs ++ [.leaf .plain .token ")"]) := by
  obtain ⟨_, _, _, _, _, hrest, hclose, -, rfl⟩ := reads_seq_found.mp h
  obtain ⟨rfl, -, rfl⟩ := reads_token_found.mp hclose
  rcases reads_alt_found.mp hrest with hrest | ⟨-, hdone⟩
  · obtain ⟨_, _, _, _, _, hspread, hgap, -, rfl⟩ := reads_seq_found.mp hrest
    obtain ⟨us, -, rfl⟩ := reads_node_found.mp hspread
    exact .inr ⟨_, us, _, _, hspread, (reads_gap_found.mp hgap).1, by simp⟩
  · cases reads_done.mp hdone
    exact .inl ⟨rfl, rfl⟩

theorem unsequencedAll_cons_of_form (h : t.form ≠ .sequence) (ts : List Tree) :
    unsequencedAll (t :: ts) = t :: unsequencedAll ts := by
  rw [unsequencedAll, unsequenced_of_form h, List.singleton_append]

/-- Behind an expression, a list goes on like the arguments of a call. -/
theorem readsArguments_of_expression {end₁ : Text} {gs us : List Tree}
    (hexpr : Reads grammar (ref (.expression {})) s (.found k ts end₁))
    (hgap : gap? end₁ = some (gs, mid))
    (h : Reads grammar (alt (token ")")
      (all [comma, gap, seq (optional (seq (spread {}) gap)) (token ")")])) mid
        (.found k' us rest)) :
    ReadsArguments s (unsequencedAll (ts ++ (gs ++ us))) rest := by
  obtain ⟨_, t, _, _, e, hitem, hgrows, -, rfl⟩ := reads_grow_found.mp (reads_ref.mp hexpr)
  obtain ⟨hrole, hform⟩ := yields_item.2 hitem t List.mem_cons_self
  obtain ⟨vs, hvs, hmore⟩ := repeats_of_grows hgrows hrole
  rw [unsequenced_of_form hform] at hvs
  have htrees : ∀ ws,
      unsequencedAll ([e] ++ (gs ++ ws)) = [t] ++ (vs ++ (gs ++ unsequencedAll ws)) := by
    intro ws
    rw [unsequencedAll_append, unsequencedAll_append, unsequencedAll_gap hgap, unsequencedAll, hvs]
    simp [unsequencedAll]
  rw [htrees]
  rcases reads_alt_found.mp h with hclose | ⟨-, h₁⟩
  · obtain ⟨rfl, -, rfl⟩ := reads_token_found.mp hclose
    have hmany := hmore (.stop (argumentStep_absent hgap))
    rw [List.append_nil] at hmany
    exact readsArguments_cons (reads_argument hitem) hmany (moreComma_none hgap) hgap
  · obtain ⟨_, _, _, _, _, hcomma, h₂, -, rfl⟩ := reads_seq_found.mp h₁
    obtain ⟨rfl, -, rfl⟩ := reads_comma_found.mp hcomma
    obtain ⟨_, gs', _, _, _, hgap', h₃, -, rfl⟩ := reads_seq_found.mp h₂
    have hgap' := (reads_gap_found.mp hgap').1
    have hus : ∀ ws, unsequencedAll ([.leaf .plain .token ","] ++ (gs' ++ ws)) =
        [.leaf .plain .token ","] ++ (gs' ++ unsequencedAll ws) := by
      intro ws
      rw [unsequencedAll_append, unsequencedAll_append, unsequencedAll_gap hgap']
      rfl
    rw [hus]
    rcases onlyParameters_cases h₃ with ⟨rfl, rfl⟩ | ⟨_, ws, _, gs'', hspread, hgap'', rfl⟩
    · -- A comma at the end of the list.
      have hmany := hmore (.stop ((reads_gap hgap).seq_absent ((reads_comma _).seq_absent
        ((reads_gap hgap').seq_absent (argument_absent_close rest)))))
      rw [List.append_nil] at hmany
      have hcomma : Reads grammar (more comma) end₁
          (.found false (gs ++ [.leaf .plain .token ","]) _) :=
        .alt_left ((reads_gap hgap).seq (reads_comma _))
      rw [← List.append_assoc gs]
      exact readsArguments_cons (reads_argument hitem) hmany hcomma hgap'
    · -- A rest at the end of the list.
      have hlast : Reads grammar argumentStep end₁ (.found _ _ _) :=
        (reads_gap hgap).seq ((reads_comma _).seq ((reads_gap hgap').seq hspread.alt_left))
      have hmany := hmore (.next hlast (.stop (argumentStep_absent hgap'')))
      have h := readsArguments_cons (reads_argument hitem) hmany (moreComma_none hgap'') hgap''
      rw [unsequencedAll_cons_of_form (t := .node .plain .spread ws) nofun, unsequencedAll_append,
        unsequencedAll_gap hgap'']
      simpa [unsequencedAll, unsequenced] using h

/-- A parameter list is read as the arguments of a call. -/
theorem reads_arguments_of_listed
    (h : Reads grammar (listed {} (token ")")) s (.found k ts rest)) :
    ∃ k', Reads grammar (ref (.arguments {})) s
      (.found k' [.node .plain .arguments (unsequencedAll ts)] rest) := by
  obtain ⟨_, _, start, _, us, hopen, h₁, -, rfl⟩ := reads_seq_found.mp h
  obtain ⟨_, before, first, _, us, hgap, h₂, -, rfl⟩ := reads_seq_found.mp h₁
  have hbefore := (reads_gap_found.mp hgap).1
  have hinside : ReadsArguments first (unsequencedAll us) rest := by
    rcases reads_alt_found.mp h₂ with h₃ | ⟨-, h₃⟩
    · obtain ⟨_, _, _, _, _, hexpr, h₄, -, rfl⟩ := reads_seq_found.mp h₃
      obtain ⟨_, _, _, _, _, hgap', h₅, -, rfl⟩ := reads_seq_found.mp h₄
      exact readsArguments_of_expression hexpr (reads_gap_found.mp hgap').1 h₅
    · rcases onlyParameters_cases h₃ with ⟨rfl, rfl⟩ | ⟨_, ws, _, gs, hspread, hgap', rfl⟩
      · exact readsArguments_nil rest
      · have h := readsArguments_cons hspread.alt_left ⟨_, .stop (argumentStep_absent hgap')⟩
          (moreComma_none hgap') hgap'
        rw [unsequencedAll_cons_of_form (t := .node .plain .spread ws) nofun, unsequencedAll_append,
          unsequencedAll_gap hgap']
        exact h
  obtain ⟨k', hinside⟩ := hinside
  have hlist := hopen.seq (hgap.seq hinside)
  obtain ⟨-, -, rfl⟩ := reads_token_found.mp hopen
  rw [List.singleton_append, unsequencedAll_cons_of_form (t := .leaf .plain .token "(") nofun,
    unsequencedAll_append, unsequencedAll_gap hbefore]
  exact ⟨_, .ref hlist.node⟩

end

end CompositeScript.Fragment
