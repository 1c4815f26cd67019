import CompositeScript.Proofs.Fragment.Locality

/-!
The tokens of the grammar are local.

Most lengths are settled by the code points up to the bracket: the bracket is part of no word,
number or operator. Only literals and escapes may reach beyond it, and then what they are before it
is of no concern.
-/

namespace CompositeScript.Fragment

variable {b : CodePoint} {u w w' : Text} {n m : Nat}

/-- The answer does not depend on what follows the bracket. -/
def Fixed (b : CodePoint) (f : Text → Option Nat) : Prop :=
  ∀ u w w' : Text, f (u ++ b :: w) = f (u ++ b :: w')

/-- Whether there is a token, and its length if it ends before the bracket, do not depend on what
follows the bracket. -/
def Stable (b : CodePoint) (f : Text → Option Nat) : Prop :=
  ∀ u w w' : Text, (f (u ++ b :: w) = none → f (u ++ b :: w') = none) ∧
    ∀ n, f (u ++ b :: w) = some n → n ≤ u.length → f (u ++ b :: w') = some n

theorem Fixed.stable {f : Text → Option Nat} (h : Fixed b f) : Stable b f := by
  intro u w w'
  rw [h u w' w]
  exact ⟨id, fun _ hn _ => hn⟩

namespace Lexeme

/-! ## Marks -/

theorem mark_fixed {p : Text} (hp : b ∉ p) (stops : Text) : Fixed b (mark p stops) := by
  intro u w w'
  simp only [mark, startsWith_append_closing hp]
  cases hstart : Text.startsWith u p with
  | false => rfl
  | true =>
    have hlength := length_le_of_startsWith hstart
    simp only [List.drop_append_of_le_length hlength]
    rw [starts_append_closing]

theorem mark_self_fixed (b : CodePoint) : Fixed b (mark [b] []) := by
  intro u w w'
  have hstops : ∀ s, starts (List.contains []) s = false := fun s => by cases s <;> rfl
  cases u <;> simp [mark, Text.startsWith, hstops]

theorem firstMark_fixed {ms : List (Text × Text)} (h : ∀ m ∈ ms, b ∉ m.1) :
    Fixed b (firstMark ms) := by
  induction ms with
  | nil => exact fun u w w' => rfl
  | cons m ms ih =>
    intro u w w'
    simp only [firstMark, mark_fixed (h m List.mem_cons_self) m.2 u w w',
      ih (fun m' hm' => h m' (.tail m hm')) u w w']

theorem chainMark_fixed (hb : IsClosing b) : Fixed b chainMark :=
  mark_fixed (by rcases hb with rfl | rfl <;> decide) _

theorem questionMark_fixed (hb : IsClosing b) : Fixed b questionMark := by
  intro u w w'
  have hmark : b ∉ Text.ofString "?" := by rcases hb with rfl | rfl <;> decide
  simp only [questionMark, chainMark_fixed hb u w w', mark_fixed hmark _ u w w']

/-! ## Words -/

theorem closing_not_namePart (hb : IsClosing b) : isNamePart b = false := by
  rcases hb with rfl | rfl <;> decide

theorem closing_not_hexDigit (hb : IsClosing b) : b.isHexDigit = false := by
  rcases hb with rfl | rfl <;> decide

theorem closing_ne_backslash (hb : IsClosing b) : b ≠ '\\' := by
  rcases hb with rfl | rfl <;> decide

/-- A bracket among the next code points is no digit, so a number of digits is not complete. -/
theorem take_all_closing {p : CodePoint → Bool} (hb : p b = false) (k : Nat) :
    (decide (((u ++ b :: w).take k).length = k) && ((u ++ b :: w).take k).all p) =
      (decide (k ≤ u.length) && (u.take k).all p) := by
  by_cases hk : k ≤ u.length
  · simp [List.take_append_of_le_length hk, hk]
  · have hmem : b ∈ (u ++ b :: w).take k := by
      rw [List.take_append, List.mem_append]
      right
      obtain ⟨j, hj⟩ : ∃ j, k - u.length = j + 1 := ⟨k - u.length - 1, by omega⟩
      simp [hj]
    have hall : ((u ++ b :: w).take k).all p = false := by
      rw [List.all_eq_false]
      exact ⟨b, hmem, by simp [hb]⟩
    simp [hall, hk]

theorem unicodeEscape_fixed (hb : IsClosing b) : Fixed b unicodeEscape := by
  intro u w w'
  have hmark : b ∉ Text.ofString "u\x7b" := by rcases hb with rfl | rfl <;> decide
  have hhex := closing_not_hexDigit hb
  simp only [unicodeEscape, startsWith_append_closing hmark]
  cases hstart : Text.startsWith u "u\x7b" with
  | true =>
    have hlength : 2 ≤ u.length := length_le_of_startsWith hstart
    have hdigits := (List.takeWhile_prefix CodePoint.isHexDigit (l := u.drop 2)).length_le
    rw [List.length_drop] at hdigits
    simp only [if_true, List.drop_append_of_le_length hlength, takeWhile_append_closing hhex,
      List.drop_append_of_le_length
        (show ((u.drop 2).takeWhile CodePoint.isHexDigit).length + 2 ≤ u.length by omega)]
    rw [starts_append_closing _ w w']
  | false =>
    simp only [Bool.false_eq_true, if_false]
    rw [starts_append_closing _ w w']
    cases u with
    | nil => simp [starts, show b ≠ 'u' by rcases hb with rfl | rfl <;> decide]
    | cons c u =>
      simp only [List.cons_append, List.drop_succ_cons, List.drop_zero, take_all_closing hhex 4]

theorem le_nameEnd (k n : Nat) (s : Text) : n ≤ nameEnd k n s := by
  induction s generalizing k n with
  | nil => cases k <;> exact Nat.le_refl _
  | cons c s ih =>
    cases k with
    | succ k => have := ih k (n + 1); simp only [nameEnd]; omega
    | zero =>
      simp only [nameEnd]
      split
      · have := ih 0 (n + 1); omega
      · split
        · split
          next j _ => have := ih j (n + 1); omega
          next => exact Nat.le_refl _
        · exact Nat.le_refl _

/-- A name ends before the bracket whatever follows it, or it goes on behind the bracket. -/
theorem nameEnd_append (hb : IsClosing b) (k n : Nat) (u w w' : Text) :
    nameEnd k n (u ++ b :: w) ≤ n + u.length ∧
        nameEnd k n (u ++ b :: w') = nameEnd k n (u ++ b :: w) ∨
      n + u.length < nameEnd k n (u ++ b :: w) ∧ n + u.length < nameEnd k n (u ++ b :: w') := by
  induction u generalizing k n with
  | nil =>
    cases k with
    | zero => left; simp [nameEnd, closing_not_namePart hb, closing_ne_backslash hb]
    | succ k =>
      have h := le_nameEnd k (n + 1) w
      have h' := le_nameEnd k (n + 1) w'
      right
      simp only [List.nil_append, nameEnd, List.length_nil]
      omega
  | cons c u ih =>
    have hlength : n + (c :: u).length = n + 1 + u.length := by simp; omega
    rw [hlength]
    cases k with
    | succ k => exact ih k (n + 1)
    | zero =>
      simp only [List.cons_append, nameEnd, unicodeEscape_fixed hb u w' w]
      split
      · exact ih 0 (n + 1)
      · split
        · cases unicodeEscape (u ++ b :: w) with
          | some j => exact ih j (n + 1)
          | none => left; exact ⟨show n ≤ n + 1 + u.length by omega, rfl⟩
        · left; exact ⟨by omega, rfl⟩

theorem word_stable (hb : IsClosing b) : Stable b word := by
  intro u w w'
  have hdigit := starts_append_closing (b := b) (p := CodePoint.isDigit) u w w'
  simp only [word, ← hdigit]
  split
  · exact ⟨id, fun _ h _ => h⟩
  · have hname := nameEnd_append hb 0 0 u w w'
    simp only [positive]
    rcases hname with ⟨-, hname⟩ | ⟨hname, hname'⟩
    · rw [hname]
      exact ⟨id, fun _ h _ => h⟩
    · simp only [show nameEnd 0 0 (u ++ b :: w) ≠ 0 by omega,
        show nameEnd 0 0 (u ++ b :: w') ≠ 0 by omega, if_false]
      refine ⟨fun h => (by cases h), fun n h hn => ?_⟩
      cases h
      omega

theorem keyword_fixed (hb : IsClosing b) {p : Text} (hp : b ∉ p) : Fixed b (keyword p) := by
  intro u w w'
  simp only [keyword, startsWith_append_closing hp]
  cases hstart : Text.startsWith u p with
  | false => rfl
  | true =>
    have hlength := length_le_of_startsWith hstart
    have hword : ∀ (w w' : Text) (n : Nat), (word (u ++ b :: w)).filter (· == p.length) = some n →
        (word (u ++ b :: w')).filter (· == p.length) = some n := by
      intro w w' n h
      obtain ⟨hn, heq⟩ := Option.filter_eq_some_iff.mp h
      have hn' := (word_stable hb u w w').2 n hn (by rw [beq_iff_eq.mp heq]; exact hlength)
      exact Option.filter_eq_some_iff.mpr ⟨hn', heq⟩
    simp only [if_true]
    exact Option.ext fun n => ⟨hword w w' n, hword w' w n⟩

theorem closing_not_mem_reserved (hb : IsClosing b) : ∀ t ∈ reserved, b ∉ t := by
  rcases hb with rfl | rfl <;> decide

theorem name_stable (hb : IsClosing b) : Stable b name := by
  intro u w w'
  have hword := word_stable hb u w w'
  simp only [name]
  cases hn : word (u ++ b :: w) with
  | none => simp [hword.1 hn]
  | some n =>
    by_cases hle : n ≤ u.length
    · rw [hword.2 n hn hle]
      simp only [Option.filter_some, List.take_append_of_le_length hle]
      exact ⟨id, fun _ h _ => h⟩
    · have hfree : reserved.contains ((u ++ b :: w).take n) = false := by
        rw [List.contains_eq_mem, decide_eq_false_iff_not]
        intro hmem
        refine closing_not_mem_reserved hb _ hmem ?_
        rw [List.take_append, List.mem_append]
        obtain ⟨j, hj⟩ : ∃ j, n - u.length = j + 1 := ⟨n - u.length - 1, by omega⟩
        simp [hj]
      simp only [Option.filter_some, hfree, Bool.not_false, if_true]
      refine ⟨nofun, fun m hm hlem => ?_⟩
      cases hm
      exact absurd hlem hle

end Lexeme

theorem Stable.or {f g : Text → Option Nat} (hf : Stable b f) (hg : Stable b g) :
    Stable b fun s => (f s).or (g s) := by
  intro u w w'
  have hf := hf u w w'
  have hg := hg u w w'
  cases h : f (u ++ b :: w) with
  | none =>
    simp only [h, hf.1 h, Option.none_or]
    exact hg
  | some n =>
    simp only [h, Option.some_or]
    refine ⟨nofun, fun m hm hle => ?_⟩
    cases hm
    simp only [hf.2 n h hle, Option.some_or]

namespace Lexeme

theorem ownName_stable (hb : IsClosing b) : Stable b ownName := by
  have hkeyword : Fixed b (keyword "undefined") :=
    keyword_fixed hb (by rcases hb with rfl | rfl <;> decide)
  have heq : ownName = fun s => (name s).or (keyword "undefined" s) := by
    funext s
    simp only [ownName]
    cases name s <;> rfl
  rw [heq]
  exact (name_stable hb).or hkeyword.stable

theorem privateName_stable (hb : IsClosing b) : Stable b privateName := by
  intro u w w'
  cases u with
  | nil =>
    have hne : b ≠ '#' := by rcases hb with rfl | rfl <;> decide
    simp [privateName, starts, hne]
  | cons c u =>
    have hword := word_stable hb u w w'
    simp only [privateName, List.cons_append, List.drop_succ_cons, List.drop_zero]
    by_cases hc : c = '#'
    · simp only [starts, hc, List.head?_cons, Option.any_some, decide_true, if_true,
        Option.map_eq_none_iff, Option.map_eq_some_iff]
      refine ⟨hword.1, ?_⟩
      rintro n ⟨m, hm, rfl⟩ hle
      exact ⟨m, hword.2 m hm (by simp at hle; omega), rfl⟩
    · simp [starts, hc]

/-! ## Operators -/

theorem augmentedOperator_fixed (hb : IsClosing b) : Fixed b augmentedOperator :=
  firstMark_fixed (by rcases hb with rfl | rfl <;> decide)

theorem unaryOperator_fixed (hb : IsClosing b) : Fixed b unaryOperator := by
  have hmarks : Fixed b (firstMark unaryMarks) :=
    firstMark_fixed (by rcases hb with rfl | rfl <;> decide)
  have htypeof : Fixed b (keyword "typeof") :=
    keyword_fixed hb (by rcases hb with rfl | rfl <;> decide)
  have hvoid : Fixed b (keyword "void") :=
    keyword_fixed hb (by rcases hb with rfl | rfl <;> decide)
  have hdelete : Fixed b (keyword "delete") :=
    keyword_fixed hb (by rcases hb with rfl | rfl <;> decide)
  intro u w w'
  simp only [unaryOperator, hmarks u w w', htypeof u w w', hvoid u w w', hdelete u w w']

theorem binaryOperator_fixed (hb : IsClosing b) (allowIn : Bool) :
    Fixed b (binaryOperator allowIn) := by
  have hcomment : b ∉ Text.ofString "<!--" := by rcases hb with rfl | rfl <;> decide
  have hmarks : Fixed b (firstMark binaryMarks) :=
    firstMark_fixed (by rcases hb with rfl | rfl <;> decide)
  have hinstanceof : Fixed b (keyword "instanceof") :=
    keyword_fixed hb (by rcases hb with rfl | rfl <;> decide)
  have hin : Fixed b (keyword "in") := keyword_fixed hb (by rcases hb with rfl | rfl <;> decide)
  intro u w w'
  simp only [binaryOperator, startsWith_append_closing hcomment, hmarks u w w', hinstanceof u w w',
    hin u w w']

/-! ## Literals -/

theorem escape_fixed (hb : IsClosing b) : Fixed b escape := by
  intro u w w'
  cases u with
  | nil =>
    have hne : b ≠ 'x' ∧ b ≠ 'u' ∧ b ≠ '\r' := by rcases hb with rfl | rfl <;> decide
    simp [escape, hne.1, hne.2.1, hne.2.2]
  | cons c u =>
    have hunicode := unicodeEscape_fixed hb (c :: u) w w'
    simp only [List.cons_append] at hunicode
    simp only [escape, List.cons_append, take_all_closing (closing_not_hexDigit hb) 2, hunicode]
    rw [starts_append_closing _ w w']

theorem le_charactersEnd (k n : Nat) (s : Text) : n ≤ charactersEnd k n s := by
  induction s generalizing k n with
  | nil => cases k <;> exact Nat.le_refl _
  | cons c s ih =>
    cases k with
    | succ k => have := ih k (n + 1); simp only [charactersEnd]; omega
    | zero =>
      simp only [charactersEnd]
      split
      · exact Nat.le_refl _
      split
      · exact Nat.le_refl _
      split
      · cases escape s with
        | some j => have := ih j (n + 1); simp only; omega
        | none => exact Nat.le_refl _
      · have := ih 0 (n + 1); omega

theorem charactersEnd_append (hb : IsClosing b) (k n : Nat) (u w w' : Text)
    (h : charactersEnd k n (u ++ b :: w) ≤ n + u.length) :
    charactersEnd k n (u ++ b :: w') = charactersEnd k n (u ++ b :: w) := by
  induction u generalizing k n with
  | nil =>
    have hne : b ≠ '\x60' ∧ b ≠ '$' ∧ b ≠ '\\' := by rcases hb with rfl | rfl <;> decide
    cases k with
    | zero =>
      have := le_charactersEnd 0 (n + 1) w
      simp [charactersEnd, hne.1, hne.2.1, hne.2.2] at h
      omega
    | succ k =>
      have := le_charactersEnd k (n + 1) w
      simp [charactersEnd] at h
      omega
  | cons c u ih =>
    have hlength : n + (c :: u).length = n + 1 + u.length := by simp; omega
    rw [hlength] at h
    cases k with
    | succ k => exact ih k (n + 1) h
    | zero =>
      simp only [List.cons_append, charactersEnd, escape_fixed hb u w' w] at h ⊢
      rw [starts_append_closing _ w' w]
      split
      · rfl
      next hquote =>
        rw [if_neg hquote] at h
        split
        · rfl
        next hsubstitution =>
          rw [if_neg hsubstitution] at h
          split
          next hescape =>
            rw [if_pos hescape] at h
            cases hj : escape (u ++ b :: w) with
            | some j => rw [hj] at h; exact ih j (n + 1) h
            | none => rfl
          next hescape => rw [if_neg hescape] at h; exact ih 0 (n + 1) h

theorem charactersAfter_stable (hb : IsClosing b) (c : CodePoint) :
    Stable b (charactersAfter c) := by
  intro u w w'
  simp only [charactersAfter]
  rw [starts_append_closing _ w' w]
  split
  next hstart =>
    refine ⟨nofun, fun n hn hle => ?_⟩
    cases u with
    | nil =>
      cases hn
      have := le_charactersEnd 0 1 w
      simp at hle
      omega
    | cons d u =>
      simp only [List.cons_append, List.drop_succ_cons, List.drop_zero, Option.some.injEq] at hn ⊢
      rw [← hn] at hle ⊢
      exact charactersEnd_append hb 0 1 u w w' (by simp at hle; omega)
  next => exact ⟨id, fun _ h _ => h⟩

theorem lt_stringEnd {q : CodePoint} {k : Nat} {s : Text} (h : stringEnd q k n s = some m) :
    n < m := by
  induction s generalizing k n with
  | nil => cases k <;> exact absurd h nofun
  | cons c s ih =>
    cases k with
    | succ k => have := ih h; omega
    | zero =>
      simp only [stringEnd] at h
      split at h
      · cases h; omega
      split at h
      · cases hj : escape s with
        | some j => rw [hj] at h; have := ih h; omega
        | none => rw [hj] at h; exact absurd h nofun
      split at h
      · exact absurd h nofun
      · have := ih h; omega

theorem stringEnd_append (hb : IsClosing b) {q : CodePoint} {k : Nat} {u w : Text} (w' : Text)
    (h : stringEnd q k n (u ++ b :: w) = some m) (hm : m ≤ n + u.length) :
    stringEnd q k n (u ++ b :: w') = some m := by
  induction u generalizing k n with
  | nil => have := lt_stringEnd h; simp at hm; omega
  | cons c u ih =>
    have hlength : n + (c :: u).length = n + 1 + u.length := by simp; omega
    rw [hlength] at hm
    cases k with
    | succ k => exact ih h hm
    | zero =>
      simp only [List.cons_append, stringEnd, escape_fixed hb u w' w] at h ⊢
      split at h
      next hquote => rw [if_pos hquote]; exact h
      next hquote =>
        rw [if_neg hquote]
        split at h
        next hescape =>
          rw [if_pos hescape]
          cases hj : escape (u ++ b :: w) with
          | some j => rw [hj] at h; exact ih h hm
          | none => rw [hj] at h; exact absurd h nofun
        next hescape =>
          rw [if_neg hescape]
          split at h
          · exact absurd h nofun
          next hline => rw [if_neg hline]; exact ih h hm

theorem string_append (hb : IsClosing b) (h : string (u ++ b :: w) = some n) (hn : n ≤ u.length)
    (w' : Text) : string (u ++ b :: w') = some n := by
  cases u with
  | nil =>
    have hquote : isQuote b = false := by rcases hb with rfl | rfl <;> decide
    simp [string, hquote] at h
  | cons q u =>
    simp only [List.cons_append, string] at h ⊢
    split at h
    next hquote =>
      rw [if_pos hquote]
      exact stringEnd_append hb w' h (by simp at hn; omega)
    next => exact absurd h nofun

theorem attributeString_append (hb : IsClosing b) (h : attributeString (u ++ b :: w) = some n)
    (hn : n ≤ u.length) (w' : Text) : attributeString (u ++ b :: w') = some n := by
  cases u with
  | nil =>
    have hquote : isQuote b = false := by rcases hb with rfl | rfl <;> decide
    simp [attributeString, hquote] at h
  | cons q u =>
    simp only [List.cons_append, attributeString] at h ⊢
    split at h
    next hquote =>
      rw [if_pos hquote]
      split at h
      next hlt =>
        simp only [Option.some.injEq] at h
        have hle : ((u ++ b :: w).takeWhile (· ≠ q)).length ≤ u.length := by simp at hn; omega
        rw [takeWhile_append_congr w' hle, if_pos (by
          simp only [List.length_append, List.length_cons]; omega), h]
      next => exact absurd h nofun
    next => exact absurd h nofun

theorem lt_regexEnd {inClass escaped : Bool} {s : Text}
    (h : regexEnd inClass escaped n s = some m) : n < m := by
  induction s generalizing inClass escaped n with
  | nil => exact absurd h nofun
  | cons c s ih =>
    simp only [regexEnd] at h
    split at h
    · exact absurd h nofun
    split at h
    · have := ih h; omega
    split at h
    · have := ih h; omega
    split at h
    · have := ih h; omega
    split at h
    · have := ih h; omega
    split at h
    · cases h; omega
    · have := ih h; omega

theorem regexEnd_append {inClass escaped : Bool}
    (h : regexEnd inClass escaped n (u ++ b :: w) = some m) (hm : m ≤ n + u.length) (w' : Text) :
    regexEnd inClass escaped n (u ++ b :: w') = some m := by
  induction u generalizing inClass escaped n with
  | nil => have := lt_regexEnd h; simp at hm; omega
  | cons c u ih =>
    have hlength : n + (c :: u).length = n + 1 + u.length := by simp; omega
    rw [hlength] at hm
    simp only [List.cons_append, regexEnd] at h ⊢
    grind

theorem regex_append (hb : IsClosing b) (h : regex (u ++ b :: w) = some n) (hn : n ≤ u.length)
    (w' : Text) : regex (u ++ b :: w') = some n := by
  have hmark : b ∉ Text.ofString "/" := by rcases hb with rfl | rfl <;> decide
  have hflag : isFlag b = false := by rcases hb with rfl | rfl <;> decide
  simp only [regex, mark_fixed hmark _ u w' w] at h ⊢
  cases hstart : mark "/" "/*" (u ++ b :: w) with
  | none => rw [hstart] at h; cases h
  | some j =>
    rw [hstart] at h
    simp only at h ⊢
    have hu : 1 ≤ u.length := by
      simp only [mark, startsWith_append_closing hmark] at hstart
      split at hstart
      next hs => exact length_le_of_startsWith (Bool.and_eq_true_iff.mp hs).1
      next => cases hstart
    rw [List.drop_append_of_le_length hu] at h ⊢
    cases hend : regexEnd false false 1 (u.drop 1 ++ b :: w) with
    | none => rw [hend] at h; cases h
    | some i =>
      rw [hend] at h
      simp only at h
      split at h
      · cases h
      next hnext =>
        cases h
        have hi : i ≤ u.length := by omega
        rw [regexEnd_append hend (by simp only [List.length_drop]; omega) w']
        simp only [List.drop_append_of_le_length hi, takeWhile_append_closing hflag] at hn hnext ⊢
        rw [List.drop_append_of_le_length hn] at hnext ⊢
        rw [starts_append_closing _ w' w, if_neg hnext]

/-! ## Numbers -/

theorem digitsEnd_le {p : CodePoint → Bool} {a : Bool} {s : Text} :
    digitsEnd p a n s ≤ n + s.length := by
  induction s generalizing a n with
  | nil => exact Nat.le_refl _
  | cons c s ih =>
    simp only [digitsEnd, List.length_cons]
    split
    · have := @ih (n + 1) true; omega
    split
    · have := @ih (n + 1) false; omega
    · omega

theorem starts_append_of_not {p : CodePoint → Bool} (hb : p b = false) :
    starts p (u ++ b :: w) = starts p u := by
  cases u <;> simp [starts, hb]

theorem digitsEnd_append {p : CodePoint → Bool} {a : Bool} (hb : p b = false) (hne : b ≠ '_') :
    digitsEnd p a n (u ++ b :: w) = digitsEnd p a n u := by
  induction u generalizing a n with
  | nil => simp [digitsEnd, hb, hne]
  | cons c u ih => simp only [List.cons_append, digitsEnd, ih, starts_append_of_not hb]

theorem exists_cons_of_starts {p : CodePoint → Bool} {s : Text} (h : starts p s = true) :
    ∃ c t, s = c :: t ∧ p c = true := by
  cases s with
  | nil => exact absurd h nofun
  | cons c t => exact ⟨c, t, rfl, h⟩

section

variable (hb : IsClosing b)
include hb

theorem closing_not_digit : b.isDigit = false := by rcases hb with rfl | rfl <;> rfl

theorem closing_ne_underscore : b ≠ '_' := by rcases hb with rfl | rfl <;> decide

theorem decimalDigitsEnd_append {a : Bool} :
    digitsEnd CodePoint.isDigit a n (u ++ b :: w) = digitsEnd CodePoint.isDigit a n u :=
  digitsEnd_append (closing_not_digit hb) (closing_ne_underscore hb)

theorem signedEnd_append : signedEnd (u ++ b :: w) = signedEnd u := by
  simp only [signedEnd]
  rw [starts_append_of_not (by rcases hb with rfl | rfl <;> rfl)]
  split
  next hsign =>
    obtain ⟨c, u, rfl, -⟩ := exists_cons_of_starts hsign
    simp only [List.cons_append, List.drop_succ_cons, List.drop_zero, decimalDigitsEnd_append hb]
  next => simp only [List.drop_zero, decimalDigitsEnd_append hb]

theorem exponentEnd_append : exponentEnd (u ++ b :: w) = exponentEnd u := by
  simp only [exponentEnd]
  rw [starts_append_of_not (by rcases hb with rfl | rfl <;> rfl)]
  cases hstart : starts (fun c => c = 'e' || c = 'E') u with
  | false => rfl
  | true =>
    obtain ⟨c, u, rfl, -⟩ := exists_cons_of_starts hstart
    simp only [List.cons_append, List.drop_succ_cons, List.drop_zero, signedEnd_append hb]

theorem fractionEnd_append : fractionEnd (u ++ b :: w) = fractionEnd u := by
  simp only [fractionEnd]
  rw [starts_append_of_not (by rcases hb with rfl | rfl <;> rfl)]
  split
  next hstart =>
    obtain ⟨c, u, rfl, -⟩ := exists_cons_of_starts hstart
    simp only [List.cons_append, List.drop_succ_cons, List.drop_zero, decimalDigitsEnd_append hb]
  next => rfl

end

theorem decimalDigitsEnd_le (s : Text) : digitsEnd CodePoint.isDigit false 0 s ≤ s.length := by
  have := @digitsEnd_le 0 CodePoint.isDigit false s
  omega

theorem signedEnd_le (s : Text) : signedEnd s ≤ s.length := by
  simp only [signedEnd]
  cases hsign : starts (fun c => c = '+' || c = '-') s with
  | true =>
    obtain ⟨c, s, rfl, -⟩ := exists_cons_of_starts hsign
    have := decimalDigitsEnd_le s
    simp only [if_true, List.drop_succ_cons, List.drop_zero, List.length_cons]
    split <;> omega
  | false =>
    have := decimalDigitsEnd_le s
    simp only [Bool.false_eq_true, if_false, List.drop_zero]
    split <;> omega

theorem exponentEnd_le (s : Text) : exponentEnd s ≤ s.length := by
  simp only [exponentEnd]
  split
  next hstart =>
    obtain ⟨c, s, rfl, -⟩ := exists_cons_of_starts (Bool.and_eq_true_iff.mp hstart).1
    have := signedEnd_le s
    simp only [List.drop_succ_cons, List.drop_zero, List.length_cons]
    omega
  next => exact Nat.zero_le _

theorem fractionEnd_le (s : Text) : fractionEnd s ≤ s.length := by
  simp only [fractionEnd]
  split
  next hstart =>
    obtain ⟨c, s, rfl, -⟩ := exists_cons_of_starts hstart
    have := @digitsEnd_le 1 CodePoint.isDigit false s
    simp only [List.drop_succ_cons, List.drop_zero, List.length_cons]
    omega
  next => exact Nat.zero_le _

theorem decimalEnd_append (hb : IsClosing b) : decimalEnd (u ++ b :: w) = decimalEnd u := by
  simp only [decimalEnd, decimalDigitsEnd_append hb,
    List.drop_append_of_le_length (decimalDigitsEnd_le u), fractionEnd_append hb,
    List.drop_append_of_le_length (fractionEnd_le _), exponentEnd_append hb]
  rw [starts_append_of_not (by rcases hb with rfl | rfl <;> rfl)]

theorem decimalEnd_le (s : Text) : decimalEnd s ≤ s.length := by
  have hwhole := decimalDigitsEnd_le s
  have hfraction := fractionEnd_le (s.drop (digitsEnd CodePoint.isDigit false 0 s))
  have hexponent := exponentEnd_le ((s.drop (digitsEnd CodePoint.isDigit false 0 s)).drop
    (fractionEnd (s.drop (digitsEnd CodePoint.isDigit false 0 s))))
  simp only [List.length_drop] at hfraction hexponent
  simp only [decimalEnd]
  split
  next hn =>
    obtain ⟨c, t, ht, -⟩ := exists_cons_of_starts (Bool.and_eq_true_iff.mp hn).2
    have hpos := congrArg List.length ht
    simp only [List.length_drop, List.length_cons] at hpos
    omega
  next => split <;> omega

theorem legacyOctalEnd_append (hb : IsClosing b) :
    legacyOctalEnd (u ++ b :: w) = legacyOctalEnd u := by
  have hoctal : isOctalDigit b = false := by rcases hb with rfl | rfl <;> rfl
  simp only [legacyOctalEnd, takeWhile_append_closing hoctal, decimalDigitsEnd_append hb]
  rw [starts_append_of_not (by rcases hb with rfl | rfl <;> rfl)]

theorem legacyOctalEnd_le (s : Text) : legacyOctalEnd s ≤ s.length := by
  simp only [legacyOctalEnd]
  split
  · exact (List.takeWhile_prefix _).length_le
  · exact Nat.zero_le _

theorem baseDigits_closing (hb : IsClosing b) {c : CodePoint} {p : CodePoint → Bool}
    (h : baseDigits c = some p) : p b = false := by
  simp only [baseDigits] at h
  split at h
  · cases h; rcases hb with rfl | rfl <;> rfl
  split at h
  · cases h; rcases hb with rfl | rfl <;> rfl
  split at h
  · cases h; rcases hb with rfl | rfl <;> rfl
  · exact absurd h nofun

theorem markedNumberEnd_append (hb : IsClosing b) :
    markedNumberEnd (u ++ b :: w) = markedNumberEnd u := by
  match u with
  | [] =>
    have hne : b ≠ '0' := by rcases hb with rfl | rfl <;> decide
    cases w <;> simp [markedNumberEnd, hne]
  | [c] =>
    have hnone : baseDigits b = none := by rcases hb with rfl | rfl <;> rfl
    simp [markedNumberEnd, hnone]
  | c :: d :: u =>
    simp only [List.cons_append, markedNumberEnd]
    cases hbase : if c = '0' then baseDigits d else none with
    | none => rfl
    | some p =>
      have hp : p b = false := by
        split at hbase
        · exact baseDigits_closing hb hbase
        · exact absurd hbase nofun
      have hle := @digitsEnd_le 0 p false u
      simp only [digitsEnd_append hp (closing_ne_underscore hb),
        List.drop_append_of_le_length (show digitsEnd p false 0 u ≤ u.length by omega)]
      rw [starts_append_of_not (by rcases hb with rfl | rfl <;> rfl)]

theorem markedNumberEnd_le (s : Text) : markedNumberEnd s ≤ s.length := by
  match s with
  | [] => exact Nat.zero_le _
  | [c] => exact Nat.zero_le _
  | c :: d :: s =>
    simp only [markedNumberEnd]
    cases hbase : if c = '0' then baseDigits d else none with
    | none => exact Nat.zero_le _
    | some p =>
      have hle := @digitsEnd_le 0 p false s
      simp only [List.length_cons]
      split
      · exact Nat.zero_le _
      split
      next hn =>
        obtain ⟨c, t, ht, -⟩ := exists_cons_of_starts hn
        have hpos := congrArg List.length ht
        simp only [List.length_drop, List.length_cons] at hpos
        omega
      next => omega

theorem numberEnd_append (hb : IsClosing b) : numberEnd (u ++ b :: w) = numberEnd u := by
  simp only [numberEnd, markedNumberEnd_append hb, legacyOctalEnd_append hb, decimalEnd_append hb]

theorem numberEnd_le (s : Text) : numberEnd s ≤ s.length := by
  have := markedNumberEnd_le s
  have := legacyOctalEnd_le s
  have := decimalEnd_le s
  simp only [numberEnd]
  split
  · assumption
  split <;> assumption

theorem number_fixed (hb : IsClosing b) : Fixed b number := by
  intro u w w'
  simp only [number, numberEnd_append hb, List.drop_append_of_le_length (numberEnd_le u)]
  rw [starts_append_closing _ w w']

/-! ## Elements -/

theorem elementWord_fixed (hb : IsClosing b) : Fixed b elementWord := by
  intro u w w'
  have hpart : (isNamePart b || decide (b = '-')) = false := by rcases hb with rfl | rfl <;> rfl
  have hle := (List.takeWhile_prefix (fun c => isNamePart c || decide (c = '-')) (l := u)).length_le
  simp only [elementWord, takeWhile_append_closing (p := fun c => isNamePart c || decide (c = '-'))
    hpart, List.drop_append_of_le_length hle]
  rw [starts_append_closing _ w w', starts_append_closing _ w w']

theorem textAfter_stable (c : CodePoint) : Stable b (textAfter c) := by
  intro u w w'
  simp only [textAfter]
  rw [starts_append_closing _ w' w]
  split
  next =>
    refine ⟨nofun, fun n hn hle => ?_⟩
    cases hn
    cases u with
    | nil => simp at hle
    | cons d u =>
      simp only [List.cons_append, List.drop_succ_cons, List.drop_zero, List.length_cons] at hle ⊢
      rw [takeWhile_append_congr w' (show _ ≤ _ from Nat.le_of_succ_le_succ hle)]
  next => exact ⟨id, fun _ h _ => h⟩

/-! ## Calmness -/

/-- A code point that starts no blank, and no word, comma or private name. -/
def isSolidStart (c : CodePoint) : Bool :=
  !isSpace c && (!isNamePart c || c.isDigit) && c ≠ '\\' && c ≠ ',' && c ≠ '#'

/-- Such a code point, if it starts no comment and no chain mark either. -/
def isPlainStart (c : CodePoint) : Bool := isSolidStart c && c ≠ '/' && c ≠ '<' && c ≠ '?'

end Lexeme

open Lexeme

/-- No blank and no token that is not firm starts here. -/
def Solid (s : Text) : Prop := blank false s = none ∧ light s = none

theorem Solid.calm {tail : Text} (h : Solid (u ++ tail)) : Calm tail u :=
  .stop (gap?_eq_some.mpr (.stop h.1)) h.2

theorem gap?_of_blank {s : Text} (h : blank false s = none) : gap? s = some ([], s) :=
  gap?_eq_some.mpr (.stop h)

theorem word_of_solidStart {c : CodePoint} {s : Text} (hc : isSolidStart c = true) :
    word (c :: s) = none := by
  simp only [isSolidStart, Bool.and_eq_true, Bool.not_eq_true', Bool.or_eq_true,
    decide_eq_true_eq] at hc
  obtain ⟨⟨⟨⟨-, hc⟩, hslash⟩, -⟩, -⟩ := hc
  cases hdigit : c.isDigit with
  | true => simp [word, starts, hdigit]
  | false =>
    rcases hc with hc | hc
    · simp [word, starts, hdigit, nameEnd, hc, hslash, positive]
    · rw [hc] at hdigit; cases hdigit

theorem solid_cons {c : CodePoint} {s : Text} (hc : isSolidStart c = true)
    (hcomment : c = '/' → starts (fun d => d = '/' || d = '*') s = false)
    (hmarkup : Text.startsWith (c :: s) "<!--" = false) (hchain : chainMark (c :: s) = none) :
    Solid (c :: s) := by
  have hword := word_of_solidStart (s := s) hc
  simp only [isSolidStart, Bool.and_eq_true, Bool.not_eq_true', decide_eq_true_eq] at hc
  obtain ⟨⟨⟨⟨hspace, -⟩, -⟩, hcomma⟩, hhash⟩ := hc
  have hstart : ∀ d : CodePoint, (d = '/' ∨ d = '*') →
      Text.startsWith (c :: s) (Text.ofString "/" ++ [d]) = false := by
    intro d hd
    by_cases hc : c = '/'
    · have := hcomment hc
      cases s with
      | nil => simp [Text.startsWith, Text.ofString, List.isPrefixOf]
      | cons e s =>
        simp only [starts, List.head?_cons, Option.any_some, Bool.or_eq_false_iff,
          decide_eq_false_iff_not] at this
        have hne : d ≠ e := by
          rcases hd with rfl | rfl
          · exact fun h => this.1 h.symm
          · exact fun h => this.2 h.symm
        simp [Text.startsWith, Text.ofString, List.isPrefixOf, hne]
    · simp [Text.startsWith, Text.ofString, List.isPrefixOf, Ne.symm hc]
  have hblock := hstart '*' (.inr rfl)
  have hline := hstart '/' (.inl rfl)
  refine ⟨?_, ?_⟩
  · have hspaces : spaces (c :: s) = none := by simp [spaces, positive, hspace]
    have hblock' : Text.startsWith (c :: s) "/*" = false := hblock
    have hline' : Text.startsWith (c :: s) "//" = false := hline
    simp [blank, hspaces, hblock', startsLineComment, hline', hmarkup]
  · have hcommaMark : mark "," [] (c :: s) = none := by
      simp [mark, Text.startsWith, Text.ofString, List.isPrefixOf, Ne.symm hcomma]
    have hprivate : privateName (c :: s) = none := by simp [privateName, starts, hhash]
    simp [light, hword, hcommaMark, hchain, hprivate]

theorem solid_of_plainStart {c : CodePoint} {s : Text} (hc : isPlainStart c = true) :
    Solid (c :: s) := by
  simp only [isPlainStart, Bool.and_eq_true, decide_eq_true_eq] at hc
  obtain ⟨⟨⟨hc, hslash⟩, hlt⟩, hquestion⟩ := hc
  refine solid_cons hc (fun h => absurd h hslash) ?_ ?_
  · simp [Text.startsWith, Text.ofString, List.isPrefixOf, Ne.symm hlt]
  · simp [chainMark, mark, Text.startsWith, Text.ofString, List.isPrefixOf, Ne.symm hquestion]

/-- Behind the first `n` code points the place is as calm as before them: what can be read twice
there ends with them, or before something that can not. -/
def Passes (s : Text) (n : Nat) : Prop :=
  blank false s = none ∧
    (light s = none ∨ ∃ k ≤ n, light s = some k ∧ (k = n ∨ Solid (s.drop k)))

theorem Solid.passes {s : Text} (h : Solid s) (n : Nat) : Passes s n := ⟨h.1, .inl h.2⟩

theorem passes_of_light {s : Text} (hblank : blank false s = none) (h : light s = some n) :
    Passes s n :=
  ⟨hblank, .inr ⟨n, Nat.le_refl n, h, .inl rfl⟩⟩

theorem Passes.calm {tail : Text} (h : Passes (u ++ tail) n) (hn : n ≤ u.length)
    (hcalm : Calm tail (u.drop n)) : Calm tail u := by
  obtain ⟨hblank, hlight | ⟨k, hk, hlight, rfl | hsolid⟩⟩ := h
  · exact Solid.calm ⟨hblank, hlight⟩
  · exact .of_light (gap?_of_blank hblank) hlight hn hcalm
  · rw [List.drop_append_of_le_length (by omega)] at hsolid
    exact .of_light (gap?_of_blank hblank) hlight (by omega) hsolid.calm

namespace Lexeme.Local

variable {f : Text → Option Nat}

theorem of_plain {isFirm : Bool} (hf : Stable b f) (hpass : ∀ {s n}, f s = some n → Passes s n)
    (hlight : isFirm = false → ∀ {s n}, f s = some n → Lexeme.light s = some n) :
    Lexeme.Local b (.plain f isFirm) where
  opens := by
    intro u w w' h
    simpa [plain] using (hf u w w').1 (by simpa [plain] using h)
  length := by
    intro u w n w' h hn
    have := (hf u w w').2 n h hn
    simp [plain, this]
  calm h hn hcalm := (hpass h).calm hn hcalm
  light hfirm _ _ _ h hcalm := hcalm.light (gap?_of_blank (hpass h).1) (hlight hfirm h)

theorem of_firm (hf : Stable b f) (hpass : ∀ {s n}, f s = some n → Passes s n) :
    Lexeme.Local b (.plain f true) :=
  of_plain hf hpass nofun

theorem of_light (hf : Stable b f)
    (hlight : ∀ {s n}, f s = some n → blank false s = none ∧ Lexeme.light s = some n) :
    Lexeme.Local b (.plain f false) :=
  of_plain hf (fun h => passes_of_light (hlight h).1 (hlight h).2) fun _ _ _ h => (hlight h).2

end Lexeme.Local

/-! ## The tokens of the grammar -/

section

variable {s p stops : Text}

theorem eq_of_mark (h : mark p stops s = some n) :
    ∃ t, s = p ++ t ∧ n = p.length ∧ starts stops.contains t = false := by
  simp only [mark] at h
  split at h
  next hs =>
    cases h
    obtain ⟨hstart, hstops⟩ := Bool.and_eq_true_iff.mp hs
    obtain ⟨t, rfl⟩ := List.isPrefixOf_iff_prefix.mp hstart
    exact ⟨t, rfl, rfl, by simpa using hstops⟩
  next => exact absurd h nofun

/-- A mark that starts no comment and no chain mark, and no token that is not firm. -/
def isSolidMark : (p stops : Text) → Bool
  | c :: d :: _, _ => isSolidStart c && !(c = '/' && (d = '/' || d = '*')) &&
      !(c = '<' && d = '!') && !(c = '?' && d = '.')
  | [c], stops => isPlainStart c ||
      (isSolidStart c && c = '/' && stops.contains ('/' : CodePoint) &&
        stops.contains ('*' : CodePoint)) ||
      (isSolidStart c && c = '<' && stops.contains ('!' : CodePoint))
  | [], _ => false

theorem startsWith_two {c d e f : CodePoint} {t k : Text} (h : c ≠ e ∨ d ≠ f) :
    Text.startsWith (c :: d :: t) (e :: f :: k) = false := by
  rcases h with h | h <;> simp [Text.startsWith, List.isPrefixOf, Ne.symm h]

theorem startsWith_stopped {c e f : CodePoint} {t k stops : Text} (hstops : f ∈ stops)
    (h : starts stops.contains t = false) : Text.startsWith (c :: t) (e :: f :: k) = false := by
  cases t with
  | nil => simp [Text.startsWith, List.isPrefixOf]
  | cons d t =>
    refine startsWith_two (.inr ?_)
    rintro rfl
    simp [starts, hstops] at h

theorem solid_of_mark (hp : isSolidMark p stops = true) (h : mark p stops s = some n) :
    Solid s := by
  obtain ⟨t, rfl, rfl, hstops⟩ := eq_of_mark h
  match p, hp with
  | c :: d :: q, hp =>
    simp only [isSolidMark, Bool.and_eq_true, Bool.not_eq_true', Bool.and_eq_false_iff,
      Bool.or_eq_false_iff, decide_eq_false_iff_not] at hp
    obtain ⟨⟨⟨hc, hslash⟩, hlt⟩, hquestion⟩ := hp
    refine solid_cons hc ?_ (startsWith_two hlt) ?_
    · intro h
      have hd := hslash.resolve_left (not_not.mpr h)
      exact Bool.or_eq_false_iff.mpr ⟨decide_eq_false hd.1, decide_eq_false hd.2⟩
    · have hchain : Text.startsWith (c :: (d :: q).append t) "?." = false :=
        startsWith_two hquestion
      simp only [chainMark, mark, hchain, Bool.false_and, Bool.false_eq_true, if_false]
  | [c], hp =>
    simp only [isSolidMark, Bool.or_eq_true, Bool.and_eq_true, decide_eq_true_eq,
      List.contains_iff_mem] at hp
    rcases hp with (hc | ⟨⟨⟨hc, rfl⟩, hslash⟩, hstar⟩) | ⟨⟨hc, rfl⟩, hbang⟩
    · exact solid_of_plainStart hc
    · refine solid_cons hc (fun _ => ?_) rfl rfl
      cases t with
      | nil => rfl
      | cons d t =>
        refine Bool.or_eq_false_iff.mpr ⟨decide_eq_false ?_, decide_eq_false ?_⟩ <;>
          · rintro rfl
            simp_all [starts]
    · exact solid_cons hc (fun h => absurd h (by decide)) (startsWith_stopped hbang hstops) rfl

theorem substitution_local (hb : IsClosing b) :
    Lexeme.Local b (.plain (mark "$\x7b" []) true) := by
  refine .of_firm (mark_fixed (by rcases hb with rfl | rfl <;> decide) _).stable fun h => ?_
  obtain ⟨t, rfl, rfl, -⟩ := eq_of_mark h
  exact ⟨rfl, .inr ⟨1, by decide, rfl, .inr (solid_of_plainStart rfl)⟩⟩

theorem blank_eq_none {c : CodePoint} (hspace : isSpace c = false) (hslash : c ≠ '/')
    (hlt : c ≠ '<') : blank false (c :: s) = none := by
  simp [blank, spaces, positive, hspace, startsLineComment, Text.startsWith, Text.ofString,
    List.isPrefixOf, Ne.symm hslash, Ne.symm hlt]

theorem light_of_word (h : word s = some n) : blank false s = none ∧ light s = some n := by
  refine ⟨?_, by rw [light, h, Option.some_or]⟩
  cases s with
  | nil => exact absurd h nofun
  | cons c s =>
    have hc : isNamePart c = true ∨ c = '\\' := by
      by_contra hc
      rw [not_or, Bool.not_eq_true] at hc
      simp [word, nameEnd, hc.1, hc.2, positive] at h
    have hspace : isSpace c = false := by
      rcases hc with hc | rfl
      · exact (by simpa [isNamePart] using hc : _ ∧ isSpace c = false).2
      · rfl
    refine blank_eq_none hspace ?_ ?_
    · rintro rfl; rcases hc with hc | hc <;> exact absurd hc (by decide)
    · rintro rfl; rcases hc with hc | hc <;> exact absurd hc (by decide)

theorem word_of_keyword {k : Text} (h : keyword k s = some n) :
    word s = some n ∧ s.take n = k := by
  simp only [keyword] at h
  split at h
  next hstart =>
    obtain ⟨hn, heq⟩ := Option.filter_eq_some_iff.mp h
    obtain ⟨t, rfl⟩ := List.isPrefixOf_iff_prefix.mp hstart
    rw [beq_iff_eq.mp heq] at hn ⊢
    exact ⟨hn, List.take_left⟩
  next => exact absurd h nofun

theorem word_of_name (h : name s = some n) : word s = some n := (Option.filter_eq_some_iff.mp h).1

theorem word_of_ownName (h : ownName s = some n) : word s = some n := by
  simp only [ownName] at h
  cases hname : name s with
  | some m => rw [hname] at h; cases h; exact word_of_name hname
  | none => rw [hname] at h; exact (word_of_keyword h).1

theorem word_local (hb : IsClosing b) : Lexeme.Local b (.plain word false) :=
  .of_light (word_stable hb) light_of_word

theorem name_local (hb : IsClosing b) : Lexeme.Local b (.plain name false) :=
  .of_light (name_stable hb) fun h => light_of_word (word_of_name h)

theorem ownName_local (hb : IsClosing b) : Lexeme.Local b (.plain ownName false) :=
  .of_light (ownName_stable hb) fun h => light_of_word (word_of_ownName h)

theorem keyword_local (hb : IsClosing b) {k : Text} (hk : b ∉ k) :
    Lexeme.Local b (.plain (keyword k) false) :=
  .of_light (keyword_fixed hb hk).stable fun h => light_of_word (word_of_keyword h).1

theorem comma_local (hb : IsClosing b) : Lexeme.Local b (.plain (mark "," []) false) := by
  refine .of_light (mark_fixed (by rcases hb with rfl | rfl <;> decide) _).stable fun h => ?_
  obtain ⟨t, rfl, rfl, -⟩ := eq_of_mark h
  exact ⟨rfl, by cases t <;> rfl⟩

theorem chainMark_local (hb : IsClosing b) : Lexeme.Local b (.plain chainMark false) := by
  refine .of_light (chainMark_fixed hb).stable fun {s n} h => ?_
  have h' := h
  obtain ⟨t, rfl, rfl, -⟩ := eq_of_mark h
  refine ⟨rfl, ?_⟩
  have hword : word (Text.ofString "?." ++ t) = none := rfl
  have hcomma : mark "," [] (Text.ofString "?." ++ t) = none := rfl
  rw [light, hword, hcomma, h']
  rfl

theorem privateName_local (hb : IsClosing b) : Lexeme.Local b (.plain privateName false) := by
  refine .of_light (privateName_stable hb) fun {s n} h => ?_
  have h' := h
  simp only [privateName] at h
  split at h
  next hs =>
    obtain ⟨c, t, rfl, hc⟩ := exists_cons_of_starts hs
    obtain rfl := of_decide_eq_true hc
    refine ⟨rfl, ?_⟩
    have hword : word ((CodePoint.ofChar '#') :: t) = none := rfl
    have hcomma : mark "," [] ((CodePoint.ofChar '#') :: t) = none := rfl
    have hchain : chainMark ((CodePoint.ofChar '#') :: t) = none := rfl
    rw [light, hword, hcomma, hchain, h']
    rfl
  next => exact absurd h nofun

/-! ### Operators -/

theorem mark_of_firstMark {ms : List (Text × Text)} (h : firstMark ms s = some n) :
    ∃ m ∈ ms, mark m.1 m.2 s = some n := by
  induction ms with
  | nil => exact absurd h nofun
  | cons m ms ih =>
    simp only [firstMark] at h
    cases hm : mark m.1 m.2 s with
    | some k => rw [hm] at h; cases h; exact ⟨m, List.mem_cons_self, hm⟩
    | none =>
      rw [hm] at h
      obtain ⟨m', hmem, hm'⟩ := ih h
      exact ⟨m', .tail m hmem, hm'⟩

theorem augmentedOperator_local (hb : IsClosing b) :
    Lexeme.Local b (.plain augmentedOperator true) := by
  refine .of_firm (augmentedOperator_fixed hb).stable fun h => ?_
  obtain ⟨m, hmem, hm⟩ := mark_of_firstMark h
  have hsolid : ∀ m ∈ augmentedMarks, isSolidMark m.1 m.2 = true := by decide
  exact (solid_of_mark (hsolid m hmem) hm).passes _

theorem passes_of_keyword {k : Text} (h : keyword k s = some n) : Passes s n :=
  passes_of_light (light_of_word (word_of_keyword h).1).1 (light_of_word (word_of_keyword h).1).2

theorem unaryOperator_local (hb : IsClosing b) : Lexeme.Local b (.plain unaryOperator true) := by
  refine .of_firm (unaryOperator_fixed hb).stable fun {s n} h => ?_
  simp only [unaryOperator] at h
  cases hmarks : firstMark unaryMarks s with
  | some k =>
    rw [hmarks] at h
    cases h
    obtain ⟨m, hmem, hm⟩ := mark_of_firstMark hmarks
    have hsolid : ∀ m ∈ unaryMarks, isSolidMark m.1 m.2 = true := by decide
    exact (solid_of_mark (hsolid m hmem) hm).passes _
  | none =>
    rw [hmarks] at h
    cases htypeof : keyword "typeof" s with
    | some k => rw [htypeof] at h; cases h; exact passes_of_keyword htypeof
    | none =>
      rw [htypeof] at h
      cases hvoid : keyword "void" s with
      | some k => rw [hvoid] at h; cases h; exact passes_of_keyword hvoid
      | none => rw [hvoid] at h; exact passes_of_keyword h

theorem binaryOperator_local (hb : IsClosing b) (allowIn : Bool) :
    Lexeme.Local b (.plain (binaryOperator allowIn) true) := by
  refine .of_firm (binaryOperator_fixed hb allowIn).stable fun {s n} h => ?_
  simp only [binaryOperator] at h
  split at h
  · exact absurd h nofun
  next hcomment =>
    cases hmarks : firstMark binaryMarks s with
    | some k =>
      rw [hmarks] at h
      cases h
      obtain ⟨m, hmem, hm⟩ := mark_of_firstMark hmarks
      have hsolid : ∀ m ∈ binaryMarks, isSolidMark m.1 m.2 = true ∨ m.1 = "<" := by decide
      rcases hsolid m hmem with hm' | hm'
      · exact (solid_of_mark hm' hm).passes _
      · obtain ⟨t, rfl, -, -⟩ := eq_of_mark hm
        rw [hm'] at hcomment ⊢
        exact (solid_cons rfl (fun h => absurd h (by decide)) (Bool.eq_false_iff.mpr hcomment)
          rfl).passes _
    | none =>
      rw [hmarks] at h
      cases hinstanceof : keyword "instanceof" s with
      | some k => rw [hinstanceof] at h; cases h; exact passes_of_keyword hinstanceof
      | none =>
        rw [hinstanceof] at h
        cases allowIn with
        | true => exact passes_of_keyword h
        | false => exact absurd h nofun

theorem questionMark_local (hb : IsClosing b) : Lexeme.Local b (.plain questionMark true) := by
  refine .of_firm (questionMark_fixed hb).stable fun {s n} h => ?_
  simp only [questionMark] at h
  split at h
  · exact absurd h nofun
  next hchain =>
    obtain ⟨t, rfl, -, -⟩ := eq_of_mark h
    exact (solid_cons rfl (fun h => absurd h (by decide)) rfl
      (Option.not_isSome_iff_eq_none.mp hchain)).passes _

/-! ### Literals -/

theorem isPlainStart_of_isDigit {c : CodePoint} (h : c.isDigit = true) : isPlainStart c = true := by
  have hrange : 0x30 ≤ c.val ∧ c.val ≤ 0x39 := by simpa [CodePoint.isDigit] using h
  have hdigits : ∀ k : Fin 10, isPlainStart (CodePoint.ofNat (0x30 + k.val)) = true := by decide
  have hc : c = CodePoint.ofNat (0x30 + (c.val - 0x30)) :=
    Fin.ext (by simp only [CodePoint.ofNat]; omega)
  rw [hc]
  exact hdigits ⟨c.val - 0x30, by omega⟩

theorem starts_of_digitsEnd {p : CodePoint → Bool} {m : Nat} (h : m < digitsEnd p false m s) :
    starts p s = true := by
  cases s with
  | nil => exact absurd h (by simp [digitsEnd])
  | cons c s =>
    by_contra hc
    have hc : p c = false := by simpa [starts] using hc
    simp [digitsEnd, hc] at h

theorem starts_isDigit_of_zero (h : starts (· = '0') s = true) :
    starts CodePoint.isDigit s = true := by
  obtain ⟨c, t, rfl, hc⟩ := exists_cons_of_starts h
  rw [of_decide_eq_true hc]
  rfl

theorem starts_of_markedNumberEnd (h : 0 < markedNumberEnd s) :
    starts CodePoint.isDigit s = true := by
  rcases s with _ | ⟨zero, _ | ⟨base, rest⟩⟩
  · cases h
  · cases h
  · by_cases hz : zero = '0'
    · exact starts_isDigit_of_zero (by simp [starts, hz])
    · simp [markedNumberEnd, hz] at h

theorem starts_of_legacyOctalEnd (h : 0 < legacyOctalEnd s) :
    starts CodePoint.isDigit s = true := by
  simp only [legacyOctalEnd] at h
  split at h
  next hs => exact starts_isDigit_of_zero (Bool.and_eq_true_iff.mp (Bool.and_eq_true_iff.mp hs).1).1
  next => exact absurd h (Nat.lt_irrefl 0)

/-- A decimal number without digits before the point starts with the point. -/
theorem starts_of_decimalEnd (h : 0 < decimalEnd s) :
    starts CodePoint.isDigit s = true ∨ starts (· = '.') s = true := by
  rcases Nat.eq_zero_or_pos (digitsEnd CodePoint.isDigit false 0 s) with hwhole | hwhole
  · simp only [decimalEnd, hwhole, Nat.lt_irrefl, decide_false, Bool.false_and,
      Bool.false_eq_true, if_false, decide_true, Bool.true_and, decide_eq_true_eq,
      List.drop_zero] at h
    split at h
    · exact absurd h (Nat.lt_irrefl 0)
    next hfraction =>
      simp only [fractionEnd] at hfraction
      split at hfraction
      next hs => exact .inr hs
      next => omega
  · exact .inl (starts_of_digitsEnd hwhole)

theorem starts_of_number (h : number s = some n) :
    starts (fun c => c.isDigit || c = '.') s = true := by
  have hpos : 0 < numberEnd s := by
    by_contra hzero
    simp only [number, positive] at h
    split at h
    · cases h
    · rw [if_pos (by omega)] at h
      cases h
  have hstart : starts CodePoint.isDigit s = true ∨ starts (· = '.') s = true := by
    simp only [numberEnd] at hpos
    split at hpos
    next hmarked => exact .inl (starts_of_markedNumberEnd hmarked)
    split at hpos
    next hlegacy => exact .inl (starts_of_legacyOctalEnd hlegacy)
    next => exact starts_of_decimalEnd hpos
  rcases hstart with h | h
  · obtain ⟨c, t, rfl, hc⟩ := exists_cons_of_starts h
    simp [starts, hc]
  · obtain ⟨c, t, rfl, hc⟩ := exists_cons_of_starts h
    simpa [starts] using .inr (of_decide_eq_true hc)

theorem number_local (hb : IsClosing b) : Lexeme.Local b (.plain number true) := by
  refine .of_firm (number_fixed hb).stable fun {s n} h => ?_
  obtain ⟨c, t, rfl, hc⟩ := exists_cons_of_starts (starts_of_number h)
  refine (solid_of_plainStart ?_).passes _
  rcases Bool.or_eq_true_iff.mp hc with hc | hc
  · exact isPlainStart_of_isDigit hc
  · rw [of_decide_eq_true hc]
    rfl

/-- Literals that break the text if they do not end are local. -/
theorem local_of_opens {p : Text → Bool} {f : Text → Option Nat}
    (hp : ∀ (u w w' : Text), p (u ++ b :: w) = p (u ++ b :: w'))
    (hf : ∀ {u w : Text} {n : Nat} (w' : Text), f (u ++ b :: w) = some n → n ≤ u.length →
      f (u ++ b :: w') = some n)
    (hsolid : ∀ {s n}, f s = some n → p s = true ∧ Solid s) : Lexeme.Local b ⟨p, f, true⟩ where
  opens _ h := (hp _ _ _).symm.trans h
  length w' h hn := ⟨(hp _ _ _).symm.trans (hsolid h).1, hf w' h hn⟩
  calm h _ _ := (hsolid h).2.calm
  light := nofun

theorem solid_of_isQuote (h : starts isQuote s = true) : Solid s := by
  obtain ⟨c, t, rfl, hc⟩ := exists_cons_of_starts h
  rcases Bool.or_eq_true_iff.mp hc with hc | hc <;> rw [of_decide_eq_true hc] <;>
    exact solid_of_plainStart rfl

theorem string_local (hb : IsClosing b) : Lexeme.Local b ⟨starts isQuote, string, true⟩ := by
  refine local_of_opens (fun u w w' => starts_append_closing u w w')
    (fun w' h hn => string_append hb h hn w') fun {s n} h => ?_
  have hquote : starts isQuote s = true := by
    cases s with
    | nil => exact absurd h nofun
    | cons c s => by_contra hc; simp_all [starts, string]
  exact ⟨hquote, solid_of_isQuote hquote⟩

theorem attributeString_local (hb : IsClosing b) :
    Lexeme.Local b ⟨starts isQuote, attributeString, true⟩ := by
  refine local_of_opens (fun u w w' => starts_append_closing u w w')
    (fun w' h hn => attributeString_append hb h hn w') fun {s n} h => ?_
  have hquote : starts isQuote s = true := by
    cases s with
    | nil => exact absurd h nofun
    | cons c s => by_contra hc; simp_all [starts, attributeString]
  exact ⟨hquote, solid_of_isQuote hquote⟩

theorem regex_local (hb : IsClosing b) :
    Lexeme.Local b ⟨fun s => (mark "/" "/*" s).isSome, regex, true⟩ := by
  refine local_of_opens (fun u w w' => ?_) (fun w' h hn => regex_append hb h hn w')
    fun {s n} h => ?_
  · have hmark : b ∉ Text.ofString "/" := by rcases hb with rfl | rfl <;> decide
    rw [mark_fixed hmark _ u w w']
  · simp only [regex] at h
    cases hmark : mark "/" "/*" s with
    | none => rw [hmark] at h; cases h
    | some k => exact ⟨rfl, solid_of_mark rfl hmark⟩

theorem passes_of_starts {c : CodePoint} (hc : isPlainStart c = true)
    (h : starts (· = c) s = true) (n : Nat) : Passes s n := by
  obtain ⟨d, t, rfl, hd⟩ := exists_cons_of_starts h
  rw [of_decide_eq_true hd]
  exact (solid_of_plainStart hc).passes n

theorem charactersAfter_local (hb : IsClosing b) {c : CodePoint} (hc : isPlainStart c = true) :
    Lexeme.Local b (.plain (charactersAfter c) true) := by
  refine .of_firm (charactersAfter_stable hb c) fun {s n} h => ?_
  simp only [charactersAfter] at h
  split at h
  next hstart => exact passes_of_starts hc hstart n
  next => exact absurd h nofun

theorem textAfter_local {c : CodePoint} (hc : isPlainStart c = true) :
    Lexeme.Local b (.plain (textAfter c) true) := by
  refine .of_firm (textAfter_stable c) fun {s n} h => ?_
  simp only [textAfter] at h
  split at h
  next hstart => exact passes_of_starts hc hstart n
  next => exact absurd h nofun

theorem nameEnd_eq (h : starts (· = '\\') (s.drop (s.takeWhile isNamePart).length) = false) :
    nameEnd 0 m s = m + (s.takeWhile isNamePart).length := by
  induction s generalizing m with
  | nil => rfl
  | cons c s ih =>
    cases hc : isNamePart c with
    | true =>
      simp only [List.takeWhile_cons, hc, if_true, List.length_cons, List.drop_succ_cons] at h ⊢
      rw [nameEnd, if_pos hc, ih h]
      omega
    | false =>
      simp only [List.takeWhile_cons, hc, Bool.false_eq_true, if_false, List.length_nil,
        List.drop_zero] at h ⊢
      rw [nameEnd, hc, if_neg Bool.false_ne_true, if_neg (by simpa [starts] using h)]
      rfl

theorem takeWhile_or (p q : CodePoint → Bool) (s : Text) :
    (s.takeWhile p).length ≤ (s.takeWhile fun c => p c || q c).length ∧
      ((s.takeWhile p).length = (s.takeWhile fun c => p c || q c).length ∨
        starts q (s.drop (s.takeWhile p).length) = true) := by
  induction s with
  | nil => exact ⟨Nat.le_refl 0, .inl rfl⟩
  | cons c s ih =>
    cases hp : p c with
    | true => simpa [List.takeWhile_cons, hp] using ih
    | false =>
      refine ⟨by simp [List.takeWhile_cons, hp], ?_⟩
      cases hq : q c with
      | true => exact .inr (by simp [hp, hq, starts])
      | false => exact .inl (by simp [hp, hq])

-- The word at the front ends with the name of the element, or before a hyphen in it.
theorem elementWord_local (hb : IsClosing b) : Lexeme.Local b (.plain elementWord true) := by
  refine .of_firm (elementWord_fixed hb).stable fun {s n} h => ?_
  simp only [elementWord] at h
  split at h
  next hstart =>
    split at h
    · exact absurd h nofun
    next hescape =>
      cases h
      obtain ⟨hle, hcases⟩ := takeWhile_or isNamePart (· = '-') s
      have hend : starts (· = '\\') (s.drop (s.takeWhile isNamePart).length) = false := by
        rcases hcases with hlength | hhyphen
        · rw [hlength]
          exact Bool.eq_false_iff.mpr hescape
        · obtain ⟨c, t, hs, hc⟩ := exists_cons_of_starts hhyphen
          rw [hs, of_decide_eq_true hc]
          rfl
      have hword : word s = some (s.takeWhile isNamePart).length := by
        obtain ⟨c, t, rfl, hc⟩ := exists_cons_of_starts hstart
        obtain ⟨hpart, hdigit⟩ : isNamePart c = true ∧ c.isDigit = false := by
          simpa [isNameStart] using hc
        rw [word, nameEnd_eq hend]
        simp [starts, hdigit, positive, hpart]
      refine ⟨(light_of_word hword).1, .inr ⟨_, hle, (light_of_word hword).2, ?_⟩⟩
      rcases hcases with hlength | hhyphen
      · exact .inl hlength
      · obtain ⟨c, t, hs, hc⟩ := exists_cons_of_starts hhyphen
        rw [hs, of_decide_eq_true hc]
        exact .inr (solid_of_plainStart rfl)
  next => exact absurd h nofun

/-! ### Looking ahead -/

variable {σ : Type} {f : Text → Option Nat}

/-- Whether a token starts is settled before the bracket. -/
theorem leaf_isProbe (hf : Stable b f) (form : Form) (isFirm : Bool) :
    (Rule.leaf form (.plain f isFirm) : Rule σ).IsProbe b := by
  refine ⟨fun {u w} w' h => ?_, fun s h => h⟩
  by_contra hnone
  have hsome : (f (u ++ b :: w)).isSome = true := h
  rw [(hf u w' w).1 (Option.not_isSome_iff_eq_none.mp hnone)] at hsome
  exact absurd hsome nofun

theorem starts_fixed (p : CodePoint → Bool) :
    Fixed b fun s => if starts p s then some 1 else none := by
  intro u w w'
  simp only [starts_append_closing u w w']

end

end CompositeScript.Fragment
