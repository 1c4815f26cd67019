import CompositeScript.Proofs.Escapes

/-! String literals as a code for texts.

The escapes of two code points never start alike (`escapePoint_append_inj`), so a literal determines
its text although the reader joins surrogate pairs: the pair and the point it makes up are written
differently. What the reader returns is shorter than the text by one point for each pair.

A JSON string is another code for the same texts. The two agree on a text just in case nothing in it
is delicate (`Json.string_eq_literal_iff`). -/

namespace CompositeScript

/-! ## Fused pairs -/

namespace Text

theorem length_fused_le (t : Text) : t.fused.length ≤ t.length := by
  fun_induction fused t with
  | case1 | case2 => exact Nat.le_refl _
  | case3 a b t _ ih =>
    simp only [List.length_cons]
    omega
  | case4 a b t _ ih =>
    simp only [List.length_cons] at ih ⊢
    omega

theorem unpaired_of_fused_eq {t : Text} (h : t.fused = t) : t.Unpaired := by
  fun_induction fused t with
  | case1 => exact .nil
  | case2 c => exact .singleton c
  | case3 a b t _ _ =>
    have hlength := congrArg List.length h
    have hle := length_fused_le t
    simp only [List.length_cons] at hlength
    omega
  | case4 a b t hp ih =>
    refine List.isChain_cons_cons.mpr ⟨fun ha => ?_, ih (List.cons.inj h).2⟩
    simpa [ha] using hp

theorem fused_eq_iff {t : Text} : t.fused = t ↔ t.Unpaired :=
  ⟨unpaired_of_fused_eq, fused_of_unpaired⟩

end Text

/-! ## Escapes as a prefix code -/

namespace Literal

theorem unitEscape_append_inj {c d : CodePoint} (hc : c.val < 0x10000) (hd : d.val < 0x10000)
    {x y : Text} (h : unitEscape c ++ x = unitEscape d ++ y) : c = d ∧ x = y := by
  simp only [unitEscape_eq, List.cons_append, List.cons.injEq, true_and] at h
  have hunit := congrArg Json.unit? h
  rw [Json.unit?_hex hc, Json.unit?_hex hd] at hunit
  obtain rfl := Option.some.inj hunit
  exact ⟨rfl, List.append_cancel_left h⟩

/-- How an escape is told from the others: it is an escape by letter, an escape by number, or a
point that is no backslash. -/
theorem escapePoint_append_inj {c d : CodePoint} {x y : Text}
    (h : escapePoint c ++ x = escapePoint d ++ y) : c = d ∧ x = y := by
  rcases escapePoint_cases c with ⟨a, ha, -, -, hau, hreada⟩ | ⟨hc, hlt⟩ | ⟨hc, -, hslash, -⟩ <;>
    rcases escapePoint_cases d with ⟨b, hb, -, -, hbu, hreadb⟩ | ⟨hd, hlt'⟩ | ⟨hd, -, hslash', -⟩
  · simp only [ha, hb, List.cons_append, List.nil_append, List.cons.injEq, true_and] at h
    obtain ⟨rfl, rfl⟩ := h
    have hsame := (hreada x).symm.trans (hreadb x)
    simp only [Option.some.injEq, Prod.mk.injEq, and_true] at hsame
    exact ⟨hsame, rfl⟩
  · simp only [ha, hd, unitEscape_eq, List.cons_append, List.cons.injEq] at h
    exact (hau h.2.1).elim
  · simp only [ha, hd, List.cons_append, List.cons.injEq] at h
    exact (hslash' h.1.symm).elim
  · simp only [hb, hc, unitEscape_eq, List.cons_append, List.cons.injEq] at h
    exact (hbu h.2.1.symm).elim
  · rw [hc, hd] at h
    exact unitEscape_append_inj hlt hlt' h
  · simp only [hc, hd, unitEscape_eq, List.cons_append, List.cons.injEq] at h
    exact (hslash' h.1.symm).elim
  · simp only [hb, hc, List.cons_append, List.cons.injEq] at h
    exact (hslash h.1).elim
  · simp only [hc, hd, unitEscape_eq, List.cons_append, List.cons.injEq] at h
    exact (hslash h.1).elim
  · simp only [hc, hd, List.cons_append, List.nil_append, List.cons.injEq] at h
    exact h

theorem escapePoint_ne_nil (c : CodePoint) : escapePoint c ≠ [] := by
  rcases escapePoint_cases c with ⟨d, hd, -⟩ | ⟨he, -⟩ | ⟨he, -⟩
  · simp [hd]
  · simp [he, unitEscape_eq]
  · simp [he]

theorem escape_injective : Function.Injective escape := by
  intro s
  induction s with
  | nil =>
    intro t h
    cases t with
    | nil => rfl
    | cons d t => simp [escape, escapePoint_ne_nil] at h
  | cons c s ih =>
    intro t h
    cases t with
    | nil => simp [escape, escapePoint_ne_nil] at h
    | cons d t =>
      simp only [escape, List.flatMap_cons] at h
      obtain ⟨rfl, hrest⟩ := escapePoint_append_inj h
      rw [ih hrest]

theorem string_inj {s t : Text} : string s = string t ↔ s = t := by
  simp only [string, List.append_cancel_right_eq, List.append_cancel_left_eq,
    escape_injective.eq_iff]

/-! ## The points of a literal -/

theorem le_of_mem_escapePoint {c d : CodePoint} (h : d ∈ escapePoint c) : 0x20 ≤ d.val := by
  rcases escapePoint_cases c with ⟨a, ha, -, -, -, hread⟩ | ⟨he, hc⟩ | ⟨he, -, -, hle, -⟩
  · rw [ha] at h
    rcases List.mem_cons.mp h with rfl | h
    · decide
    · -- A control has no meaning behind a backslash.
      obtain rfl := List.mem_singleton.mp h
      by_contra hlt
      have hne {x : Char} (hx : 0x20 ≤ x.toNat) : d ≠ CodePoint.ofChar x := by
        rintro rfl
        exact hlt hx
      have hnone := hread []
      rw [Json.escape?, if_neg] at hnone
      · rw [if_neg (hne (by decide)), if_neg (hne (by decide)), if_neg (hne (by decide)),
          if_neg (hne (by decide)), if_neg (hne (by decide)), if_neg (hne (by decide))] at hnone
        cases hnone
      · simp [hne (show 0x20 ≤ ('"').toNat by decide), hne (show 0x20 ≤ ('\\').toNat by decide),
          hne (show 0x20 ≤ ('/').toNat by decide)]
  · have hdigit : ∀ k < 16, 0x20 ≤ (CodePoint.ofChar (Nat.digitChar k)).val := by decide
    rw [he, unitEscape_eq, Text.hex_four hc] at h
    simp only [List.mem_cons, List.not_mem_nil, or_false] at h
    rcases h with rfl | rfl | rfl | rfl | rfl | rfl
    · decide
    · decide
    · exact hdigit _ (by omega)
    · exact hdigit _ (by omega)
    · exact hdigit _ (by omega)
    · exact hdigit _ (by omega)
  · rw [he] at h
    rwa [List.mem_singleton.mp h]

theorem le_of_mem_string {s : Text} {d : CodePoint} (h : d ∈ string s) : 0x20 ≤ d.val := by
  simp only [string, escape, List.mem_append, List.mem_flatMap] at h
  rcases h with (h | ⟨c, -, h⟩) | h
  · obtain rfl := List.mem_singleton.mp h
    decide
  · exact le_of_mem_escapePoint h
  · obtain rfl := List.mem_singleton.mp h
    decide

theorem not_delicate_of_mem_string {s : Text} {d : CodePoint} (h : d ∈ string s) :
    d.isDelicate = false := by
  rw [Bool.eq_false_iff]
  exact List.filter_eq_nil_iff.mp (delicate_string s) d h

end Literal

/-- **String literals denote their texts.** Whatever stands behind the literal of a text, the reader
takes exactly the literal and returns the text with its surrogate pairs fused, so it returns the
text itself just in case there is no pair in it. A literal holds neither controls nor surrogates nor
line separators, and no two texts have the same one. -/
theorem string_literals_decode :
    (∀ s rest : Text, Json.readString (Literal.string s ++ rest) = some (s.fused, rest)) ∧
    (∀ s rest : Text, Json.readString (Literal.string s ++ rest) = some (s, rest) ↔ s.Unpaired) ∧
    (∀ s : Text, ∀ c ∈ Literal.string s,
      0x20 ≤ c.val ∧ c.isSurrogate = false ∧ c.val ≠ 0x2028 ∧ c.val ≠ 0x2029) ∧
    Function.Injective Literal.string := by
  refine ⟨Json.readString_string, ?_, ?_, ?_⟩
  · intro s rest
    rw [Json.readString_string, Option.some.injEq, Prod.mk.injEq, Text.fused_eq_iff]
    exact and_iff_left rfl
  · intro s c hc
    have hdelicate := Literal.not_delicate_of_mem_string hc
    simp only [CodePoint.isDelicate, Bool.or_eq_false_iff, decide_eq_false_iff_not] at hdelicate
    exact ⟨Literal.le_of_mem_string hc, hdelicate.2, hdelicate.1.1, hdelicate.1.2⟩
  · exact fun s t => Literal.string_inj.mp

/-- Two first halves and a second half, before a backslash and a quote: the pair is fused, the half
before it is kept, and so is what looks like an escape behind the literal. -/
theorem string_literals_decode_pair_behind_half :
    let high : CodePoint := .ofNat 0xD83D
    let low : CodePoint := .ofNat 0xDE00
    let s : Text := [high, high, low, '\\', '"']
    let rest : Text := "\\udc00\""
    Json.readString (Literal.string s ++ rest) =
        some ([high, .ofNat 0x1F600, '\\', '"'], rest) ∧
      ¬Json.readString (Literal.string s ++ rest) = some (s, rest) ∧
      (('\\' : CodePoint) ∈ Literal.string s ∧ 0x20 ≤ ('\\' : CodePoint).val) := by
  intro high low s rest
  obtain ⟨hread, hsame, hpoints, -⟩ := string_literals_decode
  have hfused : s.fused = [high, .ofNat 0x1F600, '\\', '"'] := by decide
  have hmem : ('\\' : CodePoint) ∈ Literal.string s := by decide
  exact ⟨hfused ▸ hread s rest, fun h => absurd ((hsame s rest).mp h) (by decide), hmem,
    (hpoints s _ hmem).1⟩

/-! ## Literals and JSON strings -/

theorem Text.delicate_eq_nil_iff {s : Text} : s.delicate = [] ↔
    ∀ c ∈ s, c.val ≠ 0x2028 ∧ c.val ≠ 0x2029 ∧ c.isSurrogate = false := by
  simp [delicate, CodePoint.isDelicate, and_assoc]

/-- The two encodings of a text cannot agree by chance: the delicate points of the text are those of
its JSON string, and a literal has none. -/
theorem Json.string_eq_literal_iff {s : Text} : string s = Literal.string s ↔ s.delicate = [] := by
  constructor
  · intro h
    rw [← delicate_string, h, Literal.delicate_string]
  · intro h
    have hpoint (c) (hc : c ∈ s) : escapePoint c = Literal.escapePoint c :=
      escapePoint_of_not_delicate (Bool.eq_false_iff.mpr (List.filter_eq_nil_iff.mp h c hc))
    rw [string, Literal.string, Literal.escape, List.flatMap_congr hpoint]

/-- **The two encodings of strings** differ just where a surrogate or a line separator stands in the
text. Both are documents: the JSON string always denotes the text, and the literal does unless the
text holds a surrogate pair. -/
theorem string_encodings_agree (s : Text) :
    ∃ json literal, Json.render (.str s) = .ok json ∧ Literal.stringOf (.str s) = .ok literal ∧
      (json = literal ↔ ∀ c ∈ s, c.val ≠ 0x2028 ∧ c.val ≠ 0x2029 ∧ c.isSurrogate = false) ∧
      Json.read json = some (.str s) ∧ (Json.read literal = some (.str s) ↔ s.Unpaired) := by
  have hjson : Json.read (Json.string s) = some (.str s) :=
    Json.read_spells (.str (Json.readString_jsonString s))
  have hliteral : Json.read (Literal.string s) = some (.str s.fused) :=
    Json.read_spells (.str (Json.readString_string s))
  refine ⟨Json.string s, Literal.string s, rfl, rfl, ?_, hjson, ?_⟩
  · rw [Json.string_eq_literal_iff, Text.delicate_eq_nil_iff]
  · rw [hliteral, Option.some.injEq, Value.str.injEq, Text.fused_eq_iff]

/-- A text that looks like the escape of a line separator is written the same in both ways, and one
with the separator itself behind it is not. Two halves in the wrong order are no pair. -/
theorem string_encodings_agree_beside_escape :
    let lookalike : Text := "\\u2028"
    let separated : Text := lookalike ++ [.ofNat 0x2028]
    let halves : Text := [.ofNat 0xDC00, .ofNat 0xD800]
    Json.render (.str lookalike) = Literal.stringOf (.str lookalike) ∧
      Json.render (.str separated) ≠ Literal.stringOf (.str separated) ∧
      halves.Unpaired ∧ ∃ literal, Literal.stringOf (.str halves) = .ok literal ∧
        Json.read literal = some (.str halves) := by
  intro lookalike separated halves
  have hhalves : halves.Unpaired := by decide
  obtain ⟨j, l, hj, hl, hagree, -, -⟩ := string_encodings_agree lookalike
  obtain ⟨j', l', hj', hl', hagree', -, -⟩ := string_encodings_agree separated
  obtain ⟨-, literal, -, hliteral, -, -, hread⟩ := string_encodings_agree halves
  refine ⟨?_, ?_, hhalves, literal, hliteral, hread.mpr hhalves⟩
  · rw [hj, hl, hagree.mpr (Text.delicate_eq_nil_iff.mp (by decide))]
  · rw [hj', hl', ne_eq, Except.ok.injEq, hagree']
    intro h
    exact (h (.ofNat 0x2028) (by simp [separated])).1 rfl

end CompositeScript
