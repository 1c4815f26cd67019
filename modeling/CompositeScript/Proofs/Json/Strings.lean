import CompositeScript.Proofs.Text
import CompositeScript.Json.Reader
import CompositeScript.Json.Writer

/-! String literals, JSON strings and their reader.

A literal is written code point by code point, while the reader joins two escapes that make up a
surrogate pair. So what comes back is the text with its pairs fused (`readString_string`), which is
the text itself if no pair stands in it (`Text.fused_of_unpaired`). A JSON string has surrogates and
line separators as they are, and comes back unchanged (`readString_jsonString`). The reader never
yields a text with a pair, as long as no surrogate stands in the document itself
(`readString_unpaired`): it has looked ahead at every first half that it keeps. -/

namespace CompositeScript

/-- No second half of a surrogate pair stands right behind a first half. -/
def Text.Unpaired (t : Text) : Prop :=
  t.IsChain fun a b => a.isHighSurrogate = true → b.isLowSurrogate = false

instance (t : Text) : Decidable t.Unpaired := inferInstanceAs (Decidable (List.IsChain _ t))

/-- The text with every surrogate pair in it made one code point, from left to right. -/
def Text.fused : Text → Text
  | [] => []
  | [c] => [c]
  | a :: b :: t =>
    if a.isHighSurrogate && b.isLowSurrogate then Json.fuse a b :: fused t else a :: fused (b :: t)

/-! ## Surrogates -/

theorem CodePoint.isHighSurrogate_iff {c : CodePoint} :
    c.isHighSurrogate = true ↔ 0xD800 ≤ c.val ∧ c.val ≤ 0xDBFF := by
  simp only [isHighSurrogate, Bool.and_eq_true, decide_eq_true_eq]

theorem CodePoint.isLowSurrogate_iff {c : CodePoint} :
    c.isLowSurrogate = true ↔ 0xDC00 ≤ c.val ∧ c.val ≤ 0xDFFF := by
  simp only [isLowSurrogate, Bool.and_eq_true, decide_eq_true_eq]

theorem CodePoint.isSurrogate_iff {c : CodePoint} :
    c.isSurrogate = true ↔ 0xD800 ≤ c.val ∧ c.val ≤ 0xDFFF := by
  simp only [isSurrogate, Bool.and_eq_true, decide_eq_true_eq]

theorem Text.hasSurrogate_cons {c : CodePoint} {t : Text} :
    Text.hasSurrogate (c :: t) = false ↔ c.isSurrogate = false ∧ t.hasSurrogate = false := by
  simp [hasSurrogate]

theorem Text.unpaired_reverse_cons {c : CodePoint} {read : Text} :
    Text.Unpaired (c :: read).reverse ↔
      (∀ d ∈ read.head?, d.isHighSurrogate = true → c.isLowSurrogate = false) ∧
        Text.Unpaired read.reverse := by
  simp only [Unpaired, List.isChain_reverse, List.isChain_cons]

theorem Text.fused_of_unpaired {t : Text} (h : t.Unpaired) : t.fused = t := by
  fun_induction Text.fused t with
  | case1 | case2 => rfl
  | case3 a b t hp ih =>
    rw [Bool.and_eq_true] at hp
    have := (List.isChain_cons_cons.mp h).1 hp.1
    simp [hp.2] at this
  | case4 a b t hp ih => rw [ih (List.isChain_cons_cons.mp h).2]

/-! ## Escapes -/

/-- A surrogate or one of the two line separators. A string literal escapes it, and a JSON string
has it as it is. -/
def CodePoint.isDelicate (c : CodePoint) : Bool :=
  c.val = 0x2028 || c.val = 0x2029 || c.isSurrogate

theorem CodePoint.isDelicate_iff {c : CodePoint} :
    c.isDelicate = true ↔
      c.val = 0x2028 ∨ c.val = 0x2029 ∨ 0xD800 ≤ c.val ∧ c.val ≤ 0xDFFF := by
  simp only [isDelicate, Bool.or_eq_true, decide_eq_true_eq, isSurrogate_iff, or_assoc]

namespace Literal

theorem unitEscape_eq (c : CodePoint) :
    unitEscape c = ('\\' : CodePoint) :: ('u' : CodePoint) :: Text.hex 4 c.val := by
  simp [unitEscape, Text.ofString]

/-- The three ways to write a code point inside a string. -/
theorem escapePoint_cases (c : CodePoint) :
    (∃ d : CodePoint, escapePoint c = [('\\' : CodePoint), d] ∧ c.val < 0x80 ∧ d.val < 0x80 ∧
      d ≠ 'u' ∧ ∀ s, Json.escape? (d :: s) = some (c, 1)) ∨
    (escapePoint c = unitEscape c ∧ c.val < 0x10000) ∨
    (escapePoint c = [c] ∧ c ≠ '"' ∧ c ≠ '\\' ∧ 0x20 ≤ c.val ∧ c.isDelicate = false) := by
  unfold escapePoint shortEscape?
  split
  · next t h =>
    left
    split_ifs at h <;> cases h <;> subst c
    · exact ⟨'\\', by simp [Text.ofString], by decide, by decide, by simp,
        fun s => by simp [Json.escape?]⟩
    · exact ⟨'"', by simp [Text.ofString], by decide, by decide, by simp,
        fun s => by simp [Json.escape?]⟩
    · exact ⟨'b', by simp [Text.ofString], by decide, by decide, by simp,
        fun s => by simp [Json.escape?]⟩
    · exact ⟨'f', by simp [Text.ofString], by decide, by decide, by simp,
        fun s => by simp [Json.escape?]⟩
    · exact ⟨'n', by simp [Text.ofString], by decide, by decide, by simp,
        fun s => by simp [Json.escape?]⟩
    · exact ⟨'r', by simp [Text.ofString], by decide, by decide, by simp,
        fun s => by simp [Json.escape?]⟩
    · exact ⟨'t', by simp [Text.ofString], by decide, by decide, by simp,
        fun s => by simp [Json.escape?]⟩
  · next h =>
    right
    split_ifs at h with h1 h2
    split_ifs with h3
    · left
      refine ⟨rfl, ?_⟩
      simp only [Bool.or_eq_true, decide_eq_true_eq, CodePoint.isSurrogate_iff] at h3
      omega
    · right
      rw [Bool.or_assoc, Bool.or_assoc, ← Bool.or_assoc (decide (c.val = 0x2028)),
        Bool.or_eq_true, not_or, decide_eq_true_eq] at h3
      exact ⟨rfl, h2, h1, by omega, Bool.eq_false_iff.mpr h3.2⟩

theorem escapePoint_of_surrogate {c : CodePoint} (h : c.isSurrogate = true) :
    escapePoint c = unitEscape c := by
  rcases escapePoint_cases c with ⟨_, _, hc, _⟩ | ⟨he, _⟩ | ⟨_, _, _, _, hs⟩
  · have := CodePoint.isSurrogate_iff.mp h
    omega
  · exact he
  · simp [CodePoint.isDelicate, h] at hs

end Literal

namespace Json

/-! ## Reading literals back -/

theorem unit?_hex {c : CodePoint} (h : c.val < 0x10000) (s : Text) :
    unit? (Text.hex 4 c.val ++ s) = some c := by
  have h1 := CodePoint.hexDigit?_digitChar (show c.val / 4096 < 16 by omega)
  have h2 := CodePoint.hexDigit?_digitChar (show c.val / 256 % 16 < 16 by omega)
  have h3 := CodePoint.hexDigit?_digitChar (show c.val / 16 % 16 < 16 by omega)
  have h4 := CodePoint.hexDigit?_digitChar (show c.val % 16 < 16 by omega)
  rw [Text.hex_four h]
  simp only [List.cons_append, unit?, h1, h2, h3, h4, Option.some.injEq]
  rw [← CodePoint.ofNat_val c]
  congr 1
  rw [CodePoint.ofNat_val]
  omega

theorem drop_hex {n : Nat} (h : n < 0x10000) (s : Text) : (Text.hex 4 n ++ s).drop 4 = s := by
  rw [Text.hex_four h]
  rfl

theorem readChars_append (p read s : Text) :
    readChars p.length read (p ++ s) = readChars 0 read s := by
  induction p with
  | nil => rfl
  | cons c p ih => simpa [readChars] using ih

theorem lowAhead?_unitEscape {c : CodePoint} (h : c.val < 0x10000) (s : Text) :
    lowAhead? (Literal.unitEscape c ++ s) = if c.isLowSurrogate then some c else none := by
  simp only [Literal.unitEscape_eq, lowAhead?, Text.startsWith, Text.ofString]
  simp [unit?_hex h, Option.filter]

theorem lowAhead?_escapePoint {c : CodePoint} (h : c.isLowSurrogate = false) (s : Text) :
    lowAhead? (Literal.escapePoint c ++ s) = none := by
  rcases Literal.escapePoint_cases c with ⟨d, hd, _, _, hu, _⟩ | ⟨he, hc⟩ | ⟨he, _, hc, _⟩
  · rw [hd]
    simp [lowAhead?, Text.startsWith, Text.ofString, hu.symm]
  · rw [he, lowAhead?_unitEscape hc, h]
    rfl
  · rw [he]
    simp [lowAhead?, Text.startsWith, Text.ofString, Ne.symm hc]

theorem escape?_unit {c : CodePoint} (hc : c.val < 0x10000) (s : Text) :
    escape? (('u' : CodePoint) :: Text.hex 4 c.val ++ s) =
      (if c.isHighSurrogate then lowAhead? s else none).elim (some (c, 5))
        fun low => some (fuse c low, 11) := by
  simp only [List.cons_append, escape?, unit?_hex hc, drop_hex hc]
  cases if c.isHighSurrogate = true then lowAhead? s else none with
  | none => simp
  | some low => simp

/-- A code point is read back from its escape, unless the reader takes it for half of a pair. -/
theorem readChars_escapePoint {c : CodePoint} {s : Text} (read : Text)
    (h : c.isHighSurrogate = true → lowAhead? s = none) :
    readChars 0 read (Literal.escapePoint c ++ s) = readChars 0 (c :: read) s := by
  rcases Literal.escapePoint_cases c with ⟨d, hd, _, _, _, hread⟩ | ⟨he, hc⟩ |
    ⟨he, hq, hb, hctl, _⟩
  · simp [hd, readChars, hread]
  · have hnone : (if c.isHighSurrogate then lowAhead? s else none) = none := by
      split
      · next hh => exact h hh
      · rfl
    have hesc := escape?_unit hc s
    rw [hnone, Option.elim_none] at hesc
    have hlen : (('u' : CodePoint) :: Text.hex 4 c.val).length = 5 := by rw [Text.hex_four hc]; rfl
    have hskip := readChars_append (('u' : CodePoint) :: Text.hex 4 c.val) (c :: read) s
    rw [hlen] at hskip
    rw [he, Literal.unitEscape_eq, List.cons_append, readChars, if_neg (by simp), if_pos rfl, hesc]
    exact hskip
  · simp only [he, List.cons_append, List.nil_append, readChars, if_neg hq, if_neg hb]
    rw [if_neg (by omega)]

/-- Two escapes that make up a surrogate pair are read as one code point. -/
theorem readChars_pair {a b : CodePoint} (ha : a.isHighSurrogate = true)
    (hb : b.isLowSurrogate = true) (read s : Text) :
    readChars 0 read (Literal.escapePoint a ++ (Literal.escapePoint b ++ s)) =
      readChars 0 (fuse a b :: read) s := by
  have ha' := CodePoint.isHighSurrogate_iff.mp ha
  have hb' := CodePoint.isLowSurrogate_iff.mp hb
  rw [Literal.escapePoint_of_surrogate (CodePoint.isSurrogate_iff.mpr (by omega)),
    Literal.escapePoint_of_surrogate (CodePoint.isSurrogate_iff.mpr (by omega))]
  have hesc := escape?_unit (show a.val < 0x10000 by omega) (Literal.unitEscape b ++ s)
  rw [lowAhead?_unitEscape (by omega), if_pos ha, if_pos hb, Option.elim_some] at hesc
  have hlen : (('u' : CodePoint) :: Text.hex 4 a.val ++ Literal.unitEscape b).length = 11 := by
    rw [Literal.unitEscape_eq, Text.hex_four (by omega), Text.hex_four (by omega)]; rfl
  have hskip := readChars_append (('u' : CodePoint) :: Text.hex 4 a.val ++ Literal.unitEscape b)
    (fuse a b :: read) s
  rw [hlen] at hskip
  rw [Literal.unitEscape_eq a, List.cons_append, readChars, if_neg (by simp), if_pos rfl, hesc]
  simpa using hskip

theorem readChars_escape (read t rest : Text) :
    readChars 0 read (Literal.escape t ++ ('"' : CodePoint) :: rest) =
      some (read.reverse ++ t.fused, rest) := by
  fun_induction Text.fused t generalizing read with
  | case1 => simp [Literal.escape, readChars]
  | case2 c =>
    have hahead : lowAhead? (('"' : CodePoint) :: rest) = none := by
      simp [lowAhead?, Text.startsWith, Text.ofString]
    have := readChars_escapePoint read fun _ : c.isHighSurrogate = true => hahead
    simpa [Literal.escape, readChars] using this
  | case3 a b t hp ih =>
    rw [Bool.and_eq_true] at hp
    have := readChars_pair hp.1 hp.2 read (Literal.escape t ++ ('"' : CodePoint) :: rest)
    rw [ih] at this
    simpa [Literal.escape] using this
  | case4 a b t hp ih =>
    have hahead : a.isHighSurrogate = true →
        lowAhead? (Literal.escape (b :: t) ++ ('"' : CodePoint) :: rest) = none := by
      intro ha
      have hb : b.isLowSurrogate = false := by simpa [ha] using hp
      simpa [Literal.escape] using
        lowAhead?_escapePoint hb (Literal.escape t ++ ('"' : CodePoint) :: rest)
    have := readChars_escapePoint read hahead
    rw [ih] at this
    simpa [Literal.escape] using this

/-- **Strings are read back** up to surrogate pairs, whatever follows them. -/
theorem readString_string (t rest : Text) :
    readString (Literal.string t ++ rest) = some (t.fused, rest) := by
  have := readChars_escape [] t rest
  simpa [Literal.string, readString, Text.ofString] using this

/-! ## What the reader yields -/

theorem fuse_not_surrogate {a b : CodePoint} (ha : a.isHighSurrogate = true)
    (hb : b.isLowSurrogate = true) : (fuse a b).isSurrogate = false := by
  rw [CodePoint.isHighSurrogate_iff] at ha
  rw [CodePoint.isLowSurrogate_iff] at hb
  rw [Bool.eq_false_iff, ne_eq, CodePoint.isSurrogate_iff]
  simp only [fuse, CodePoint.ofNat]
  omega

theorem isLowSurrogate_of_lowAhead? {s : Text} {c : CodePoint} (h : lowAhead? s = some c) :
    c.isLowSurrogate = true := by
  unfold lowAhead? at h
  split at h
  · exact (Option.filter_eq_some_iff.mp h).2
  · cases h

/-- An escape yields the first half of a pair only if the second half is not next, and the second
half only where the reader would have found it ahead. -/
theorem escape?_surrogates {s : Text} {c : CodePoint} {k : Nat} (h : escape? s = some (c, k)) :
    (c.isHighSurrogate = true → lowAhead? (s.drop k) = none) ∧
      (c.isLowSurrogate = true → lowAhead? (('\\' : CodePoint) :: s) = some c) := by
  have plain (hc : c.isSurrogate = false) :
      (c.isHighSurrogate = true → lowAhead? (s.drop k) = none) ∧
      (c.isLowSurrogate = true → lowAhead? (('\\' : CodePoint) :: s) = some c) := by
    rw [Bool.eq_false_iff, ne_eq, CodePoint.isSurrogate_iff] at hc
    rw [CodePoint.isHighSurrogate_iff, CodePoint.isLowSurrogate_iff]
    omega
  cases s with
  | nil => cases h
  | cons d s =>
    simp only [escape?] at h
    split_ifs at h with h1 h2 h3 h4 h5 h6 h7
    · cases h
      simp only [Bool.or_eq_true, decide_eq_true_eq] at h1
      rcases h1 with (rfl | rfl) | rfl <;> exact plain (by decide)
    · cases h; exact plain (by decide)
    · cases h; exact plain (by decide)
    · cases h; exact plain (by decide)
    · cases h; exact plain (by decide)
    · cases h; exact plain (by decide)
    · subst h7
      split at h
      · cases h
      · next u hu =>
        split at h
        · next low hlow =>
          simp only [Option.some.injEq, Prod.mk.injEq] at h
          rw [← h.1] at plain ⊢
          split at hlow
          · next hhigh => exact plain (fuse_not_surrogate hhigh (isLowSurrogate_of_lowAhead? hlow))
          · cases hlow
        · next hnone =>
          cases h
          refine ⟨fun hhigh => ?_, fun hlow => ?_⟩
          · rwa [if_pos hhigh] at hnone
          · simp [lowAhead?, Text.startsWith, Text.ofString, hu, hlow]

/-- The state of the reader inside a string: the points read so far hold no pair, and if the last
one is the first half of a pair, the second half is not next. -/
theorem readChars_unpaired {k : Nat} {read s t rest : Text} (hs : s.hasSurrogate = false)
    (hread : Text.Unpaired read.reverse)
    (hahead : ∀ c ∈ read.head?, c.isHighSurrogate = true → lowAhead? (s.drop k) = none)
    (h : readChars k read s = some (t, rest)) : t.Unpaired ∧ rest.hasSurrogate = false := by
  fun_induction readChars k read s with
  | case1 => cases h
  | case2 k read c s ih => exact ih (Text.hasSurrogate_cons.mp hs).2 hread hahead h
  | case3 read s =>
    cases h
    exact ⟨hread, (Text.hasSurrogate_cons.mp hs).2⟩
  | case4 => cases h
  | case5 read s c k hesc _ ih =>
    obtain ⟨hhigh, hlow⟩ := escape?_surrogates hesc
    refine ih (Text.hasSurrogate_cons.mp hs).2 ?_ ?_ h
    · refine Text.unpaired_reverse_cons.mpr ⟨fun d hd hdhigh => ?_, hread⟩
      have hnone := hahead d hd hdhigh
      rw [Bool.eq_false_iff]
      intro hc
      rw [List.drop_zero, hlow hc] at hnone
      cases hnone
    · intro d hd
      cases hd
      exact hhigh
  | case6 => cases h
  | case7 read c s _ _ _ ih =>
    obtain ⟨hc, hs⟩ := Text.hasSurrogate_cons.mp hs
    rw [Bool.eq_false_iff, ne_eq, CodePoint.isSurrogate_iff] at hc
    refine ih hs ?_ ?_ h
    · refine Text.unpaired_reverse_cons.mpr ⟨fun _ _ _ => ?_, hread⟩
      rw [Bool.eq_false_iff, ne_eq, CodePoint.isLowSurrogate_iff]
      omega
    · intro d hd hdhigh
      cases hd
      rw [CodePoint.isHighSurrogate_iff] at hdhigh
      omega

theorem readString_unpaired {s t rest : Text} (hs : s.hasSurrogate = false)
    (h : readString s = some (t, rest)) : t.Unpaired ∧ rest.hasSurrogate = false := by
  cases s with
  | nil => cases h
  | cons c s =>
    simp only [readString] at h
    split at h
    · have hnil : Text.Unpaired ([] : Text).reverse := .nil
      exact readChars_unpaired (Text.hasSurrogate_cons.mp hs).2 hnil (fun _ hc => by cases hc) h
    · cases h

end Json

/-! ## JSON strings -/

namespace Json

theorem escapePoint_of_delicate {c : CodePoint} (h : c.isDelicate = true) :
    escapePoint c = [c] := by
  have hval := CodePoint.isDelicate_iff.mp h
  have hshort : Literal.shortEscape? c = none := by
    have hne {d : Char} (hd : d.toNat < 0x80) : c ≠ CodePoint.ofChar d := by
      rintro rfl
      rw [CodePoint.val_ofChar] at hval
      omega
    unfold Literal.shortEscape?
    rw [if_neg (hne (by decide)), if_neg (hne (by decide)), if_neg (hne (by decide)),
      if_neg (hne (by decide)), if_neg (hne (by decide)), if_neg (hne (by decide)),
      if_neg (hne (by decide))]
  rw [escapePoint, hshort]
  exact if_neg (by omega)

theorem escapePoint_of_not_delicate {c : CodePoint} (h : c.isDelicate = false) :
    escapePoint c = Literal.escapePoint c := by
  simp only [CodePoint.isDelicate, Bool.or_eq_false_iff, decide_eq_false_iff_not] at h
  unfold escapePoint Literal.escapePoint
  cases Literal.shortEscape? c with
  | none => simp [h]
  | some t => rfl

theorem readChars_jsonPoint (c : CodePoint) (read s : Text) :
    readChars 0 read (escapePoint c ++ s) = readChars 0 (c :: read) s := by
  cases hc : c.isDelicate with
  | false =>
    rw [escapePoint_of_not_delicate hc]
    apply readChars_escapePoint
    intro hhigh
    rw [CodePoint.isHighSurrogate_iff] at hhigh
    rw [Bool.eq_false_iff, ne_eq, CodePoint.isDelicate_iff] at hc
    omega
  | true =>
    have hval := CodePoint.isDelicate_iff.mp hc
    have hquote : c ≠ '"' := by rintro rfl; simp at hval
    have hbackslash : c ≠ '\\' := by rintro rfl; simp at hval
    rw [escapePoint_of_delicate hc, List.cons_append, List.nil_append, readChars, if_neg hquote,
      if_neg hbackslash, if_neg (by omega)]

/-- **JSON strings are read back** as they are, whatever follows them. -/
theorem readString_jsonString (t rest : Text) :
    readString (string t ++ rest) = some (t, rest) := by
  have hchars (read : Text) :
      readChars 0 read (t.flatMap escapePoint ++ ('"' : CodePoint) :: rest) =
        some (read.reverse ++ t, rest) := by
    induction t generalizing read with
    | nil => simp [readChars]
    | cons c t ih =>
      rw [List.flatMap_cons, List.append_assoc, readChars_jsonPoint, ih]
      simp
  simpa [string, readString, Text.ofString] using hchars []

theorem read_eq_some {t : Text} {v : Value} : read t = some v ↔ document t = .ok v := by
  unfold read
  cases document t <;> simp [Except.toOption]

end Json

end CompositeScript
