import Mathlib
import CompositeScript.Text.Blank

/-! Code points, numerals, sorted texts and the ends of texts.

A numeral is read back by `toNat`, has a leading zero only for zero itself, and is no longer than
its number allows. Four hexadecimal digits name each code point below `0x10000`. Texts are ordered
code point by code point, so a set of texts has one list in increasing order. A text is stripped
only once. -/

namespace CompositeScript

namespace CodePoint

@[simp] theorem val_ofChar (c : Char) : (ofChar c).val = c.toNat := rfl

@[simp] theorem ofChar_inj {a b : Char} : ofChar a = ofChar b ↔ a = b := by
  rw [Fin.ext_iff, val_ofChar, val_ofChar, Char.toNat_inj]

theorem ofNat_val (c : CodePoint) : ofNat c.val = c :=
  Fin.ext (Nat.mod_eq_of_lt c.isLt)

theorem isDigit_iff {c : CodePoint} : c.isDigit = true ↔ 0x30 ≤ c.val ∧ c.val ≤ 0x39 := by
  simp only [isDigit, Bool.and_eq_true, decide_eq_true_eq]

theorem ne_of_isDigit {c : CodePoint} (h : c.isDigit = true) {d : Char}
    (hd : (ofChar d).isDigit = false) : c ≠ d := by
  rintro rfl
  rw [h] at hd
  cases hd

theorem isDigit_digitChar {d : Nat} (h : d < 10) : (ofChar d.digitChar).isDigit = true := by
  revert d; decide

theorem ofChar_digitChar {c : CodePoint} (h : c.isDigit = true) :
    ofChar (c.val - 0x30).digitChar = c := by
  have hval : ∀ d < 10, (ofChar (Nat.digitChar d)).val = 0x30 + d := by decide
  have hc := isDigit_iff.mp h
  refine Fin.ext ?_
  rw [hval _ (by omega)]
  omega

theorem hexDigit?_digitChar {d : Nat} (h : d < 16) : (ofChar d.digitChar).hexDigit? = some d := by
  revert d; decide

end CodePoint

namespace Text
open CodePoint

@[simp] theorem startsWith_nil (s : Text) : startsWith s [] = true := by
  simp [startsWith]

@[simp] theorem startsWith_cons (c d : CodePoint) (s t : Text) :
    startsWith (c :: s) (d :: t) = (d == c && startsWith s t) := rfl

/-! ## Digits -/

theorem ofDigits_of_lt {b n : Nat} (h : n < b) : ofDigits b n = [ofChar n.digitChar] := by
  simp [ofDigits, Nat.toDigits_of_lt_base h]

theorem ofDigits_of_le {b n : Nat} (hb : 1 < b) (h : b ≤ n) :
    ofDigits b n = ofDigits b (n / b) ++ [ofChar (n % b).digitChar] := by
  simp [ofDigits, Nat.toDigits_of_base_le hb h]

theorem hex_one {n : Nat} (h : n < 16) : hex 1 n = [ofChar n.digitChar] := by
  simp [hex, padZeros, ofDigits_of_lt h]

theorem hex_succ {w : Nat} (hw : 0 < w) (n : Nat) :
    hex (w + 1) n = hex w (n / 16) ++ [ofChar (n % 16).digitChar] := by
  rcases Nat.lt_or_ge n 16 with h | h
  · obtain ⟨k, rfl⟩ := Nat.exists_eq_succ_of_ne_zero hw.ne'
    have hdiv : n / 16 = 0 := Nat.div_eq_of_lt h
    simp only [hex, padZeros, hdiv, Nat.mod_eq_of_lt h, ofDigits_of_lt h,
      ofDigits_of_lt (show 0 < 16 by decide)]
    simp [List.replicate_succ', Nat.digitChar]
  · simp [hex, padZeros, ofDigits_of_le (show 1 < 16 by decide) h]

theorem hex_four {n : Nat} (h : n < 0x10000) :
    hex 4 n = [ofChar (n / 4096).digitChar, ofChar (n / 256 % 16).digitChar,
      ofChar (n / 16 % 16).digitChar, ofChar (n % 16).digitChar] := by
  rw [hex_succ (by decide), hex_succ (by decide), hex_succ (by decide), hex_one (by omega)]
  simp [Nat.div_div_eq_div_mul]

/-! ## Decimal numerals -/

theorem isDigit_of_mem_ofNat {n : Nat} {c : CodePoint} (h : c ∈ ofNat n) : c.isDigit = true := by
  obtain ⟨d, hd, rfl⟩ := List.mem_map.mp h
  have hdigit := Nat.isDigit_of_mem_toDigits (by decide) (by decide) hd
  simpa [isDigit_iff, Char.isDigit, Char.le_def, UInt32.le_iff_toNat_le] using hdigit

theorem toNat_concat (s : Text) (c : CodePoint) :
    toNat (s ++ [c]) = 10 * toNat s + (c.val - 0x30) := by
  simp [toNat]

theorem toNat_append (s t : Text) : toNat (s ++ t) = toNat s * 10 ^ t.length + toNat t := by
  induction t using List.reverseRecOn with
  | nil => simp [toNat]
  | append_singleton t c ih =>
    rw [← List.append_assoc, toNat_concat, toNat_concat, ih, List.length_append,
      List.length_singleton, pow_succ]
    ring

theorem toNat_zeros (n : Nat) : toNat (List.replicate n ('0' : CodePoint)) = 0 := by
  induction n with
  | zero => rfl
  | succ n ih =>
    rw [List.replicate_succ', toNat_concat, ih]
    rfl

theorem toNat_ofNat (n : Nat) : toNat (ofNat n) = n := by
  have h := @Nat.ofDigitChars_ten_toDigits n
  simpa [toNat, ofNat, ofDigits, List.foldl_map, Nat.ofDigitChars] using h

theorem toNat_lt {s : Text} (h : ∀ c ∈ s, c.isDigit = true) : toNat s < 10 ^ s.length := by
  induction s using List.reverseRecOn with
  | nil => simp [toNat]
  | append_singleton s c ih =>
    have hs := ih fun d hd => h d (by simp [hd])
    have hc : c.val - 0x30 < 10 := by
      have := isDigit_iff.mp (h c (by simp))
      omega
    rw [toNat_concat, List.length_append, List.length_singleton, Nat.pow_succ]
    omega

theorem length_ofNat_le_iff {n k : Nat} (hk : 0 < k) : (ofNat n).length ≤ k ↔ n < 10 ^ k := by
  rw [ofNat, ofDigits, List.length_map]
  exact Nat.length_toDigits_le_iff (by decide) hk

theorem ofNat_concat {m k : Nat} (hm : 0 < m) (hk : k < 10) :
    ofNat (10 * m + k) = ofNat m ++ [ofChar k.digitChar] := by
  rw [ofNat, ofDigits_of_le (by decide) (by omega)]
  congr <;> omega

/-- Only the numeral of zero starts with a zero. -/
theorem ofNat_eq_cons (n : Nat) :
    ∃ c s, ofNat n = c :: s ∧ c.isDigit = true ∧ (c = '0' → s = []) := by
  induction n using Nat.base_induction 10 (by decide) with
  | single m hm =>
    exact ⟨_, [], ofDigits_of_lt hm, isDigit_digitChar hm, fun _ => rfl⟩
  | digit m k hk hm ih =>
    obtain ⟨c, s, hs, hc, hzero⟩ := ih
    have hnum := ofNat_concat (by omega : 0 < m) hk
    refine ⟨c, s ++ [ofChar k.digitChar], by rw [hnum, hs, List.cons_append], hc, fun h0 => ?_⟩
    -- otherwise `m` itself is written as a zero
    have := toNat_ofNat m
    simp [hs, hzero h0, h0, toNat] at this
    omega

theorem head?_ofNat {n : Nat} (h : 0 < n) : (ofNat n).head? ≠ some ('0' : CodePoint) := by
  obtain ⟨c, s, hs, -, hzero⟩ := ofNat_eq_cons n
  intro hhead
  obtain rfl : c = '0' := by simpa [hs] using hhead
  have hn := toNat_ofNat n
  simp [hs, hzero rfl, toNat] at hn
  omega

theorem pow_le_toNat {c : CodePoint} {s : Text} (hc : c.isDigit = true) (hzero : c ≠ '0') :
    10 ^ s.length ≤ toNat (c :: s) := by
  have hpos : 1 ≤ toNat [c] := by
    have hval : c.val ≠ 0x30 := fun h => hzero (Fin.ext h)
    have := isDigit_iff.mp hc
    simp only [toNat, List.foldl_cons, List.foldl_nil]
    omega
  rw [← List.singleton_append, toNat_append]
  calc 10 ^ s.length = 1 * 10 ^ s.length := (one_mul _).symm
    _ ≤ toNat [c] * 10 ^ s.length := Nat.mul_le_mul_right _ hpos
    _ ≤ toNat [c] * 10 ^ s.length + toNat s := Nat.le_add_right _ _

/-- Digits without a superfluous zero in front are the numeral of the number they write. -/
theorem ofNat_toNat {t : Text} (hne : t ≠ []) (hdigits : ∀ c ∈ t, c.isDigit = true)
    (hzero : t.head? = some ('0' : CodePoint) → t = "0") : ofNat (toNat t) = t := by
  induction t using List.reverseRecOn with
  | nil => exact (hne rfl).elim
  | append_singleton s c ih =>
    have hc : c.isDigit = true := hdigits c (by simp)
    have hlt : c.val - 0x30 < 10 := by
      have := isDigit_iff.mp hc
      omega
    have hs (d) (hd : d ∈ s) : d.isDigit = true := hdigits d (by simp [hd])
    rw [toNat_concat]
    cases s with
    | nil => simpa [toNat, ofNat, ofDigits_of_lt hlt] using ofChar_digitChar hc
    | cons d s =>
      have hd : d ≠ '0' := by
        rintro rfl
        have := congrArg List.length (hzero rfl)
        simp [ofString] at this
      have hpos : 0 < toNat (d :: s) :=
        lt_of_lt_of_le (by positivity) (pow_le_toNat (hs d (by simp)) hd)
      have hnum : ofNat (toNat (d :: s)) = d :: s :=
        ih (by simp) hs fun h => (hd (by simpa using h)).elim
      rw [ofNat_concat hpos hlt, ofChar_digitChar hc, hnum]

theorem ofInt_neg {n : Nat} (h : 0 < n) : ofInt (-n) = ('-' : CodePoint) :: ofNat n := by
  obtain ⟨k, rfl⟩ := Nat.exists_eq_succ_of_ne_zero h.ne'
  rfl

/-! ## Sorted texts -/

protected theorem le_trans {a b c : Text} (hab : le a b = true) (hbc : le b c = true) :
    le a c = true := by
  induction a generalizing b c with
  | nil => rfl
  | cons x a ih =>
    match b, c with
    | [], _ => exact absurd hab nofun
    | _ :: _, [] => exact absurd hbc nofun
    | y :: b, z :: c =>
      rw [le] at hab hbc ⊢
      by_cases hxy : x = y
      · subst hxy
        rw [if_pos rfl] at hab
        by_cases hxz : x = z
        · rw [if_pos hxz] at hbc ⊢
          exact ih hab hbc
        · rw [if_neg hxz] at hbc ⊢
          exact hbc
      · rw [if_neg hxy] at hab
        have hlt := of_decide_eq_true hab
        by_cases hyz : y = z
        · rw [← hyz, if_neg hxy]
          exact hab
        · rw [if_neg hyz] at hbc
          have hxz := lt_trans hlt (of_decide_eq_true hbc)
          rw [if_neg hxz.ne]
          exact decide_eq_true hxz

protected theorem le_total (a b : Text) : (le a b || le b a) = true := by
  induction a generalizing b with
  | nil => rfl
  | cons x a ih =>
    cases b with
    | nil => rfl
    | cons y b =>
      rw [le, le]
      by_cases hxy : x = y
      · rw [if_pos hxy, if_pos hxy.symm]
        exact ih b
      · rw [if_neg hxy, if_neg (Ne.symm hxy), Bool.or_eq_true, decide_eq_true_eq,
          decide_eq_true_eq]
        exact lt_or_gt_of_ne hxy

protected theorem le_antisymm {a b : Text} (hab : le a b = true) (hba : le b a = true) : a = b := by
  induction a generalizing b with
  | nil =>
    cases b with
    | nil => rfl
    | cons => exact absurd hba nofun
  | cons x a ih =>
    cases b with
    | nil => exact absurd hab nofun
    | cons y b =>
      rw [le] at hab hba
      by_cases hxy : x = y
      · rw [if_pos hxy] at hab
        rw [if_pos hxy.symm] at hba
        rw [hxy, ih hab hba]
      · rw [if_neg hxy] at hab
        rw [if_neg (Ne.symm hxy)] at hba
        exact absurd (of_decide_eq_true hba) (of_decide_eq_true hab).asymm

theorem nodup_eraseDups (texts : List Text) : texts.eraseDups.Nodup := by
  induction hn : texts.length using Nat.strong_induction_on generalizing texts with
  | _ n ih =>
    cases texts with
    | nil => simp
    | cons t texts =>
      have hle := List.length_filter_le (fun u => !u == t) texts
      rw [List.eraseDups_cons, List.nodup_cons, List.mem_eraseDups]
      refine ⟨by simp, ih _ ?_ _ rfl⟩
      simp only [List.length_cons] at hn
      omega

/-- A set of texts has one list in increasing order. -/
theorem sort_eraseDups_congr {as bs : List Text} (h : ∀ t, t ∈ as ↔ t ∈ bs) :
    sort as.eraseDups = sort bs.eraseDups := by
  have hperm : as.eraseDups.Perm bs.eraseDups := by
    rw [List.perm_ext_iff_of_nodup (nodup_eraseDups as) (nodup_eraseDups bs)]
    simpa only [List.mem_eraseDups] using h
  have hsorted : ∀ ts : List Text, (sort ts).Pairwise fun a b => le a b = true :=
    List.pairwise_mergeSort (fun _ _ _ => Text.le_trans) Text.le_total
  apply List.Perm.eq_of_pairwise _ (hsorted _) (hsorted _)
  · exact (List.mergeSort_perm _ _).trans (hperm.trans (List.mergeSort_perm _ _).symm)
  · exact fun _ _ _ _ => Text.le_antisymm

/-! ## Ends of texts -/

theorem dropWhile_append_of_first {b x : Text} {c : CodePoint} {y : Text} (hx : x = c :: y)
    (hc : c.isBlank = false) :
    (b ++ x).dropWhile CodePoint.isBlank = b.dropWhile CodePoint.isBlank ++ x := by
  subst hx
  induction b with
  | nil => simp [hc]
  | cons d b ih => cases hd : d.isBlank <;> simp_all

theorem strip_append {b x a : Text} {c d : CodePoint} {y z : Text} (hfirst : x = c :: y)
    (hc : c.isBlank = false) (hlast : x = z ++ [d]) (hd : d.isBlank = false) :
    Text.strip (b ++ (x ++ a)) = b.dropWhile CodePoint.isBlank ++ (x ++ a.stripEnd) := by
  have hstart : x ++ a = c :: (y ++ a) := by rw [hfirst]; rfl
  have hend : (b.dropWhile CodePoint.isBlank ++ x).reverse =
      d :: (b.dropWhile CodePoint.isBlank ++ z).reverse := by simp [hlast]
  rw [Text.strip, Text.dropWhile_append_of_first hstart hc, Text.stripEnd, ← List.append_assoc,
    List.reverse_append, Text.dropWhile_append_of_first hend hd, List.reverse_append,
    List.reverse_reverse, List.append_assoc]
  rfl

theorem enclosed {x : Text} {c d : CodePoint} (hfirst : ∃ y, x = c :: y)
    (hlast : ∃ z, x = z ++ [d]) (h : c ≠ d) : ∃ y : Text, x = c :: (y ++ [d]) := by
  obtain ⟨y, rfl⟩ := hfirst
  obtain ⟨z, hz⟩ := hlast
  cases z with
  | nil => exact absurd (List.cons.inj hz).1 h
  | cons e z => exact ⟨z, by rw [hz, ← (List.cons.inj hz).1, List.cons_append]⟩

theorem strip_strip (t : Text) : t.strip.strip = t.strip := by
  have hstart : t.strip.dropWhile CodePoint.isBlank = t.strip := by
    cases hstrip : t.strip with
    | nil => rfl
    | cons c u =>
      have hpart : t.strip <+: t.dropWhile CodePoint.isBlank := by
        rw [Text.strip, Text.stripEnd, ← List.reverse_suffix, List.reverse_reverse]
        exact List.dropWhile_suffix _
      rw [hstrip] at hpart
      obtain ⟨v, hv⟩ := hpart
      have hc : c.isBlank = false := by
        have hfirst := List.head?_dropWhile_not CodePoint.isBlank t
        rw [← hv] at hfirst
        exact hfirst
      rw [List.dropWhile_cons_of_neg (by simp [hc])]
  rw [Text.strip, hstart, Text.strip, Text.stripEnd, Text.stripEnd, List.reverse_reverse,
    List.dropWhile_idempotent]

theorem strip_hasSurrogate {t : Text} (h : t.hasSurrogate = false) :
    t.strip.hasSurrogate = false := by
  have hmem : ∀ c ∈ t.strip, c ∈ t := by
    intro c hc
    simp only [strip, stripEnd, List.mem_reverse] at hc
    have hc := (List.dropWhile_suffix _).subset hc
    exact (List.dropWhile_suffix _).subset (List.mem_reverse.mp hc)
  exact List.any_eq_false.mpr fun c hc => List.any_eq_false.mp h c (hmem c hc)

end Text

end CompositeScript
