import CompositeScript.Fragment.Rule
import Mathlib.Data.List.TakeWhile

/-!
Gaps before a closing bracket.

A token or gap that ends before a closing bracket does not depend on what follows the bracket. This
module has the facts about gaps, and the notion that makes them usable: from a calm place on, the
gaps and the words that can be read more than once end before the bracket.
-/

namespace CompositeScript.Fragment

/-- A bracket that closes a parameter list or a block. -/
def IsClosing (b : CodePoint) : Prop := b = ')' ∨ b = '\x7d'

variable {b : CodePoint} {u v w w' : Text} {n m : Nat}

theorem isPrefixOf_append_closing {p : Text} (hp : b ∉ p) :
    p.isPrefixOf (u ++ b :: w) = p.isPrefixOf u := by
  induction p generalizing u with
  | nil => simp
  | cons c p ih =>
    cases u with
    | nil =>
      have hne : c ≠ b := fun h => hp (h ▸ List.mem_cons_self)
      simp [List.isPrefixOf, hne]
    | cons d u => simp only [List.cons_append, List.isPrefixOf, ih fun h => hp (.tail c h)]

theorem startsWith_append_closing {p : Text} (hp : b ∉ p) :
    Text.startsWith (u ++ b :: w) p = Text.startsWith u p :=
  isPrefixOf_append_closing hp

theorem length_le_of_startsWith {p : Text} (h : Text.startsWith u p = true) : p.length ≤ u.length :=
  (List.isPrefixOf_iff_prefix.mp h).length_le

theorem takeWhile_append_closing {p : CodePoint → Bool} (hb : p b = false) :
    (u ++ b :: w).takeWhile p = u.takeWhile p := by
  induction u with
  | nil => simp [hb]
  | cons c u ih => by_cases hc : p c <;> simp [hc, ih]

/-- A run of code points that ends before the bracket does not depend on what follows it. -/
theorem takeWhile_append_congr {p : CodePoint → Bool} (w' : Text)
    (h : ((u ++ b :: w).takeWhile p).length ≤ u.length) :
    (u ++ b :: w').takeWhile p = (u ++ b :: w).takeWhile p := by
  induction u with
  | nil =>
    cases hb : p b with
    | false => simp [hb]
    | true => simp [hb] at h
  | cons c u ih =>
    cases hc : p c with
    | false => simp [hc]
    | true =>
      simp only [List.cons_append, List.takeWhile_cons, hc, if_true, List.length_cons] at h ⊢
      rw [ih (by omega)]

namespace Lexeme

theorem starts_append_closing {p : CodePoint → Bool} (u w w' : Text) :
    starts p (u ++ b :: w) = starts p (u ++ b :: w') := by
  cases u <;> rfl

theorem not_isSpace_of_isClosing (hb : IsClosing b) : isSpace b = false := by
  rcases hb with rfl | rfl <;> decide

theorem spaces_append_closing (hb : IsClosing b) : spaces (u ++ b :: w) = spaces u := by
  simp only [spaces, takeWhile_append_closing (not_isSpace_of_isClosing hb)]

theorem blockCommentEnd_le {s : Text} (h : blockCommentEnd n s = some m) :
    n + 2 ≤ m ∧ m ≤ n + s.length := by
  induction s generalizing n with
  | nil => exact absurd h nofun
  | cons c s ih =>
    simp only [blockCommentEnd] at h
    split at h
    next hend =>
      cases h
      cases s with
      | nil => simp [starts] at hend
      | cons d s => simp
    next => have := ih h; simp only [List.length_cons]; omega

theorem blockCommentEnd_append_closing (h : blockCommentEnd n (u ++ b :: w) = some m)
    (hm : m ≤ n + u.length) : blockCommentEnd n (u ++ b :: w') = some m := by
  induction u generalizing n with
  | nil => have := (blockCommentEnd_le h).1; simp at hm; omega
  | cons c u ih =>
    simp only [List.cons_append, blockCommentEnd] at h ⊢
    rw [starts_append_closing u w' w]
    split at h
    next hend => rw [if_pos hend]; exact h
    next hend => rw [if_neg hend]; exact ih h (by simp only [List.length_cons] at hm; omega)

theorem startsLineComment_append_closing (hb : IsClosing b) (fresh : Bool) :
    startsLineComment fresh (u ++ b :: w) = startsLineComment fresh u := by
  have hmarks : b ∉ Text.ofString "//" ∧ b ∉ Text.ofString "<!--" ∧ b ∉ Text.ofString "-->" := by
    rcases hb with rfl | rfl <;> decide
  simp only [startsLineComment, startsWith_append_closing hmarks.1,
    startsWith_append_closing hmarks.2.1, startsWith_append_closing hmarks.2.2]

theorem lineEnd_pos {fresh : Bool} {s : Text} (h : startsLineComment fresh s = true) :
    0 < lineEnd s := by
  cases s with
  | nil => cases fresh <;> exact absurd h (by decide)
  | cons c s =>
    have hc : isNewline c = false := by
      simp only [startsLineComment, Text.startsWith, Bool.or_eq_true, Bool.and_eq_true] at h
      rcases h with (h | h) | ⟨-, h⟩ <;>
        · have := (List.isPrefixOf_iff_prefix.mp h)
          obtain ⟨rest, hrest⟩ := this
          cases hrest
          rfl
    simp [lineEnd, hc]

theorem blank_append_none (hb : IsClosing b) {fresh : Bool}
    (h : blank fresh (u ++ b :: w) = none) : blank fresh (u ++ b :: w') = none := by
  have hmark : b ∉ Text.ofString "/*" := by rcases hb with rfl | rfl <;> decide
  simp only [blank, spaces_append_closing hb, startsWith_append_closing hmark,
    startsLineComment_append_closing hb] at h ⊢
  split at h
  next => exact absurd h nofun
  next => split at h <;> simp_all

theorem blank_le {fresh : Bool} {s : Text} {f : Form} (h : blank fresh s = some (f, some n)) :
    0 < n ∧ n ≤ s.length := by
  simp only [blank] at h
  split at h
  next k hk =>
    cases h
    simp only [spaces, positive] at hk
    split at hk
    next => exact absurd hk nofun
    next => cases hk; exact ⟨by omega, (List.takeWhile_prefix _).length_le⟩
  next =>
    split at h
    next hstart =>
      have := length_le_of_startsWith hstart
      simp only [Option.some.injEq, Prod.mk.injEq] at h
      have := blockCommentEnd_le h.2
      simp only [List.length_drop] at this
      simp at *
      omega
    next =>
      split at h
      next hstart =>
        cases h
        exact ⟨lineEnd_pos hstart, (List.takeWhile_prefix _).length_le⟩
      next => exact absurd h nofun

theorem form_of_blank {fresh : Bool} {s : Text} {f : Form} {m : Option Nat}
    (h : blank fresh s = some (f, m)) : f = .blank ∨ f = .comment := by
  unfold blank at h
  grind

theorem blank_append_some (hb : IsClosing b) {fresh : Bool} {f : Form}
    (h : blank fresh (u ++ b :: w) = some (f, some n)) (hn : n ≤ u.length) :
    blank fresh (u ++ b :: w') = some (f, some n) := by
  have hmark : b ∉ Text.ofString "/*" := by rcases hb with rfl | rfl <;> decide
  simp only [blank, spaces_append_closing hb, startsWith_append_closing hmark,
    startsLineComment_append_closing hb] at h ⊢
  split at h
  next => exact h
  next =>
    split at h
    next hstart =>
      have hlength : 2 ≤ u.length := length_le_of_startsWith hstart
      rw [if_pos hstart]
      simp only [Option.some.injEq, Prod.mk.injEq] at h ⊢
      rw [List.drop_append_of_le_length hlength] at h ⊢
      exact ⟨h.1, blockCommentEnd_append_closing h.2 (by simp only [List.length_drop]; omega)⟩
    next hstart =>
      rw [if_neg hstart]
      split at h
      next hline =>
        rw [if_pos hline]
        simp only [Option.some.injEq, Prod.mk.injEq] at h ⊢
        refine ⟨h.1, ?_⟩
        rw [← h.2] at hn ⊢
        exact congrArg List.length (takeWhile_append_congr w' hn)
      next => exact absurd h nofun

theorem spaces_take {s : Text} (h : spaces s = none) : spaces (s.take n) = none := by
  cases s with
  | nil => simpa using h
  | cons c s =>
    have hc : isSpace c = false := by
      cases hc : isSpace c with
      | false => rfl
      | true => simp [spaces, positive, hc] at h
    cases n with
    | zero => rfl
    | succ n => simp [spaces, positive, hc]

theorem startsWith_take {s p : Text} (hn : p.length ≤ n) :
    Text.startsWith (s.take n) p = Text.startsWith s p := by
  rw [Bool.eq_iff_iff, Text.startsWith, Text.startsWith, List.isPrefixOf_iff_prefix,
    List.isPrefixOf_iff_prefix, List.prefix_take_iff, and_iff_left hn]

theorem blockCommentEnd_take {s : Text} (h : blockCommentEnd n s = some m) :
    blockCommentEnd n (s.take (m - n)) = some m := by
  induction s generalizing n with
  | nil => cases h
  | cons c s ih =>
    have hle := blockCommentEnd_le h
    obtain ⟨k, hk⟩ : ∃ k, m - n = k + 2 := ⟨m - n - 2, by omega⟩
    have hstarts : starts (· = '/') (s.take (k + 1)) = starts (· = '/') s := by
      cases s <;> rfl
    rw [hk, List.take_succ_cons, blockCommentEnd, hstarts]
    rw [blockCommentEnd] at h
    split at h
    next hend => rw [if_pos hend]; exact h
    next hend =>
      rw [if_neg hend, ← ih h]
      congr 2
      omega

theorem startsLineComment_take {fresh : Bool} {s : Text} (h : startsLineComment fresh s = true) :
    startsLineComment fresh (s.take (lineEnd s)) = true := by
  have hmark : ∀ {p : Text}, p.all (fun c => !isNewline c) = true → s.startsWith p = true →
      Text.startsWith (s.take (lineEnd s)) p = true := by
    intro p hp hstart
    obtain ⟨t, rfl⟩ := List.isPrefixOf_iff_prefix.mp hstart
    have hle : p.length ≤ lineEnd (p ++ t) := by
      rw [lineEnd, List.takeWhile_append_of_pos (List.all_eq_true.mp hp), List.length_append]
      omega
    rw [startsWith_take hle]
    exact hstart
  simp only [startsLineComment, Bool.or_eq_true, Bool.and_eq_true] at h ⊢
  exact h.imp (Or.imp (hmark rfl) (hmark rfl)) (And.imp_right (hmark rfl))

theorem lineEnd_take (s : Text) : lineEnd (s.take (lineEnd s)) = lineEnd s := by
  have htake : s.take (lineEnd s) = s.takeWhile fun c => !isNewline c :=
    (List.prefix_iff_eq_take.mp (List.takeWhile_prefix _)).symm
  rw [htake, lineEnd, List.takeWhile_idem, lineEnd]

/-- A comment is one by itself. -/
theorem blank_take {fresh : Bool} {s : Text} (h : blank fresh s = some (.comment, some n)) :
    blank fresh (s.take n) = some (.comment, some n) := by
  unfold blank at h ⊢
  split at h
  · cases h
  next hspaces =>
    rw [spaces_take hspaces]
    split at h
    next hstart =>
      simp only [Option.some.injEq, Prod.mk.injEq, true_and] at h
      have hle := blockCommentEnd_le h
      have hstart' : Text.startsWith (s.take n) "/*" = true := by
        rw [startsWith_take (show 2 ≤ n by omega)]
        exact hstart
      rw [if_pos hstart', List.drop_take, blockCommentEnd_take h]
    next hstart =>
      split at h
      next hline =>
        simp only [Option.some.injEq, Prod.mk.injEq, true_and] at h
        subst h
        have hstart' : ¬ Text.startsWith (s.take (lineEnd s)) "/*" = true := fun hstart' =>
          hstart (List.isPrefixOf_iff_prefix.mpr
            ((List.isPrefixOf_iff_prefix.mp hstart').trans (List.take_prefix _ _)))
        simp [hstart', startsLineComment_take hline, lineEnd_take]
      next => cases h

/-- Where a fresh line starts no comment, no other place does. -/
theorem blank_false {s : Text} {fresh : Bool} (h : blank fresh s = none) :
    blank false s = none := by
  cases fresh with
  | false => exact h
  | true =>
    simp only [blank, startsLineComment] at h ⊢
    split at h
    next => exact absurd h nofun
    next => split at h <;> simp_all

end Lexeme

/-- A gap, blank by blank. -/
inductive Gap : Bool → Text → List Tree → Text → Prop
  | stop {fresh : Bool} {s : Text} : Lexeme.blank fresh s = none → Gap fresh s [] s
  | next {fresh : Bool} {s rest : Text} {f : Form} {n : Nat} {ts : List Tree} :
    Lexeme.blank fresh s = some (f, some n) →
      Gap (fresh || (s.take n).any Lexeme.isNewline) (s.drop n) ts rest →
        Gap fresh s (.leaf .plain f (s.take n) :: ts) rest

theorem gapTrees_eq_some {k : Nat} {fresh : Bool} {s rest : Text} {ts : List Tree}
    (hk : s.length ≤ k) : gapTrees k fresh s = some (ts, rest) ↔ Gap fresh s ts rest := by
  induction k generalizing fresh s ts with
  | zero =>
    obtain rfl : s = [] := List.length_eq_zero_iff.mp (by omega)
    have hblank : Lexeme.blank fresh [] = none := by cases fresh <;> rfl
    simp only [gapTrees, Option.some.injEq, Prod.mk.injEq]
    constructor
    · rintro ⟨rfl, rfl⟩; exact .stop hblank
    · intro h
      cases h with
      | stop => exact ⟨rfl, rfl⟩
      | next h => simp [hblank] at h
  | succ k ih =>
    simp only [gapTrees]
    rcases hblank : Lexeme.blank fresh s with _ | ⟨f, _ | n⟩
    · simp only [Option.some.injEq, Prod.mk.injEq]
      constructor
      · rintro ⟨rfl, rfl⟩; exact .stop hblank
      · intro h
        cases h with
        | stop => exact ⟨rfl, rfl⟩
        | next h => simp [hblank] at h
    · simp only [reduceCtorEq, false_iff]
      intro h
      cases h with
      | stop h => simp [hblank] at h
      | next h => simp [hblank] at h
    · have hn := Lexeme.blank_le hblank
      have ih' := @ih (fresh || (s.take n).any Lexeme.isNewline) (s.drop n)
      constructor
      · intro h
        obtain ⟨⟨us, rest'⟩, hus, heq⟩ := Option.map_eq_some_iff.mp h
        simp only [Prod.mk.injEq] at heq
        obtain ⟨rfl, rfl⟩ := heq
        exact .next hblank ((ih' (by simp; omega)).mp hus)
      · intro h
        cases h with
        | stop h => simp [hblank] at h
        | next h hrest =>
          rw [hblank] at h
          cases h
          exact Option.map_eq_some_iff.mpr ⟨_, (ih' (by simp; omega)).mpr hrest, rfl⟩

theorem gap?_eq_some {s rest : Text} {ts : List Tree} :
    gap? s = some (ts, rest) ↔ Gap false s ts rest :=
  gapTrees_eq_some (Nat.le_refl _)

namespace Gap

variable {fresh : Bool} {s rest : Text} {ts : List Tree}

theorem suffix (h : Gap fresh s ts rest) : rest <:+ s := by
  induction h with
  | stop => exact List.suffix_refl _
  | next _ _ ih => exact ih.trans (List.drop_suffix _ _)

theorem texts (h : Gap fresh s ts rest) : Tree.texts ts ++ rest = s := by
  induction h with
  | stop => rfl
  | next _ _ ih => simp only [Tree.texts, Tree.text, List.append_assoc, ih, List.take_append_drop]

/-- A gap ends where none starts. -/
theorem leaves (h : Gap fresh s ts rest) :
    ∀ t ∈ ts, ∃ x, t = .leaf .plain .blank x ∨ t = .leaf .plain .comment x := by
  induction h with
  | stop => exact fun _ ht => absurd ht nofun
  | @next _ s _ f n _ hblank _ ih =>
    intro t ht
    rcases List.mem_cons.mp ht with rfl | ht
    · refine ⟨s.take n, ?_⟩
      rcases Lexeme.form_of_blank hblank with rfl | rfl
      · exact .inl rfl
      · exact .inr rfl
    · exact ih t ht

theorem rest_stops (h : Gap fresh s ts rest) : Gap false rest [] rest := by
  induction h with
  | stop h => exact .stop (Lexeme.blank_false h)
  | next _ _ ih => exact ih

/-- A gap that ends before a closing bracket does not depend on what follows it. -/
theorem append_closing (hb : IsClosing b) (h : Gap fresh (u ++ b :: w) ts (v ++ b :: w)) :
    Gap fresh (u ++ b :: w') ts (v ++ b :: w') := by
  generalize hs : u ++ b :: w = s, hr : v ++ b :: w = r at h
  induction h generalizing u with
  | stop hblank =>
    subst hs
    obtain rfl : v = u := List.append_cancel_right hr
    exact .stop (Lexeme.blank_append_none hb hblank)
  | @next fresh s rest f n ts hblank hrest ih =>
    subst hs hr
    have hlength := hrest.suffix.length_le
    have hn : n ≤ u.length := by
      have := Lexeme.blank_le hblank
      simp only [List.length_append, List.length_cons, List.length_drop] at *
      omega
    have htake : ∀ w : Text, (u ++ b :: w).take n = u.take n :=
      fun w => List.take_append_of_le_length hn
    have hdrop : ∀ w : Text, (u ++ b :: w).drop n = u.drop n ++ b :: w :=
      fun w => List.drop_append_of_le_length hn
    have hgap := ih (hdrop w).symm rfl
    rw [htake] at hgap ⊢
    rw [← htake w'] at hgap ⊢
    exact .next (Lexeme.blank_append_some hb hblank hn) (by rw [hdrop]; exact hgap)

end Gap

end CompositeScript.Fragment
