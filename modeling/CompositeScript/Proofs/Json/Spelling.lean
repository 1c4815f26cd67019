import CompositeScript.Proofs.Json.Strings

/-! Spellings of values in JSON.

`Spells v s` says that the text `s` is a way to write the value `v`. A string may be written in any
way that is read back, and white space may stand behind the colons and commas of a map. A map
denotes what its members leave behind when they are inserted in order, so a spelling may name a key
twice. The reader stops right behind a spelling, with the value (`readValue_spells`), as long as
what follows does not go on with a number. -/

namespace CompositeScript

/-! ## Starts and joints -/

theorem Text.join_cons_cons (sep t u : Text) (texts : List Text) :
    Text.join sep (t :: u :: texts) = t ++ (sep ++ Text.join sep (u :: texts)) := by
  simp [Text.join, List.intercalate_cons_cons]

theorem Text.length_le_join {sep : Text} {texts : List Text} {t : Text} (h : t ∈ texts) :
    t.length ≤ (Text.join sep texts).length := by
  induction texts with
  | nil => cases h
  | cons u texts ih =>
    cases texts with
    | nil =>
      rw [List.mem_singleton.mp h]
      simp [join]
    | cons w texts =>
      rw [join_cons_cons, List.length_append, List.length_append]
      rcases List.mem_cons.mp h with rfl | h
      · omega
      · have := ih h
        omega

theorem Text.count_le_join {sep : Text} (hsep : sep ≠ []) (texts : List Text) :
    texts.length ≤ (Text.join sep texts).length + 1 := by
  induction texts with
  | nil => simp
  | cons u texts ih =>
    cases texts with
    | nil => simp
    | cons w texts =>
      have := List.length_pos_iff.mpr hsep
      rw [join_cons_cons, List.length_append, List.length_append]
      simp only [List.length_cons] at ih ⊢
      omega

namespace Json

theorem skipSpace_cons {c : CodePoint} (s : Text) (h : isSpace c = false) :
    skipSpace (c :: s) = c :: s := by
  simp [skipSpace, h]

theorem skipSpace_append {spaces : Text} (h : ∀ c ∈ spaces, isSpace c = true) (s : Text) :
    skipSpace (spaces ++ s) = skipSpace s :=
  List.dropWhile_append_of_pos h

theorem isSpace_of_isDigit {c : CodePoint} (h : c.isDigit = true) : isSpace c = false := by
  rw [Bool.eq_false_iff]
  intro hspace
  simp only [isSpace, Bool.or_eq_true, decide_eq_true_eq] at hspace
  rcases hspace with ((rfl | rfl) | rfl) | rfl <;> cases h

/-! ## Numbers -/

/-- The text does not go on with a number that ends right before it. -/
def Ends (rest : Text) : Prop :=
  ∀ c ∈ rest.head?, c.isDigit = false ∧ c ≠ '.' ∧ c ≠ 'e' ∧ c ≠ 'E'

theorem Ends.digit {rest : Text} (h : Ends rest) {c : CodePoint} (hc : c ∈ rest.head?) :
    c.isDigit = false := (h c hc).1

theorem Ends.of_cons {c : CodePoint} {rest : Text}
    (h : c.isDigit = false ∧ c ≠ '.' ∧ c ≠ 'e' ∧ c ≠ 'E') : Ends (c :: rest) := by
  intro d hd
  cases hd
  exact h

theorem Ends.of_spaces {rest : Text} (h : ∀ c ∈ rest, isSpace c = true) : Ends rest := by
  intro c hc
  have hspace := h c (List.mem_of_mem_head? hc)
  simp only [isSpace, Bool.or_eq_true, decide_eq_true_eq] at hspace
  rcases hspace with ((rfl | rfl) | rfl) | rfl <;> decide

theorem wholePart_ofNat (n : Nat) {rest : Text} (h : Ends rest) :
    wholePart (Text.ofNat n ++ rest) = some (Text.ofNat n, rest) := by
  have hdigits : ∀ c ∈ Text.ofNat n, c.isDigit = true := fun _ => Text.isDigit_of_mem_ofNat
  obtain ⟨c, s, hn, hc, hzero⟩ := Text.ofNat_eq_cons n
  by_cases h0 : c = '0'
  · simp [hn, hzero h0, wholePart, h0]
  · have hrest :
        rest.takeWhile CodePoint.isDigit = [] ∧ rest.dropWhile CodePoint.isDigit = rest := by
      cases rest with
      | nil => simp
      | cons d rest => simp [h.digit (c := d) (by simp)]
    rw [hn] at hdigits ⊢
    simp only [List.cons_append, wholePart, if_neg h0, hc, if_true, digits]
    rw [← List.cons_append, List.takeWhile_append_of_pos hdigits,
      List.dropWhile_append_of_pos hdigits, hrest.1, hrest.2, List.append_nil]

theorem fractionPart_of_ends {rest : Text} (h : Ends rest) : fractionPart rest = none := by
  cases rest with
  | nil => rfl
  | cons c rest => simp [fractionPart, (h c (by simp)).2.1]

theorem exponentPart_of_ends {rest : Text} (h : Ends rest) : exponentPart rest = none := by
  cases rest with
  | nil => rfl
  | cons c rest => simp [exponentPart, (h c (by simp)).2.2.1, (h c (by simp)).2.2.2]

theorem readSize_ofNat {negative : Bool} {n : Nat} {rest : Text} (h : Ends rest) :
    readSize negative (Text.ofNat n ++ rest) =
      some (.int (if negative then -(n : Int) else n), rest) := by
  simp only [readSize, wholePart_ofNat n h, fractionPart_of_ends h, Option.elim_none,
    exponentPart_of_ends h, Text.toNat_ofNat]

theorem readNumber_ofInt {i : Int} {rest : Text} (h : Ends rest) :
    readNumber (Text.ofInt i ++ rest) = some (.int i, rest) := by
  cases i with
  | ofNat n =>
    have hstart : Text.startsWith (Text.ofNat n ++ rest) "-" = false := by
      obtain ⟨c, s, hn, hc, _⟩ := Text.ofNat_eq_cons n
      have hminus : c ≠ '-' := CodePoint.ne_of_isDigit hc (by decide)
      simp [hn, Text.ofString, hminus.symm]
    rw [Text.ofInt, readNumber, hstart]
    exact readSize_ofNat h
  | negSucc n =>
    have hread := @readSize_ofNat true (n + 1) rest h
    simpa [Text.ofInt, readNumber, Text.ofString, Int.negSucc_eq] using hread

theorem readNumber_eq_none {c : CodePoint} (hminus : c ≠ '-') (hdigit : c.isDigit = false)
    (s : Text) : readNumber (c :: s) = none := by
  have hzero : c ≠ '0' := by rintro rfl; simp [CodePoint.isDigit] at hdigit
  simp [readNumber, Text.ofString, hminus.symm, readSize, wholePart, hzero, hdigit]

/-! ## Spellings -/

/-- The literal is read as the text, whatever follows it. -/
def Quotes (literal t : Text) : Prop := ∀ rest, readString (literal ++ rest) = some (t, rest)

/-- A member of a map, with a literal for its key and a spelling of its value. -/
structure Member where
  key : Text
  literal : Text
  value : Value
  text : Text

namespace Member

def entry (m : Member) : Value × Value := (.str m.key, m.value)

/-- The member with white space behind its colon. -/
def spelled (gap : Text) (m : Member) : Text := m.literal ++ ":" ++ gap ++ m.text

end Member

/-- The text is a way to write the value. -/
inductive Spells : Value → Text → Prop
  | null : Spells .null "null"
  | bool (b : Bool) : Spells (.bool b) (Literal.boolean b)
  | int {i : Int} (h : i.natAbs < 10 ^ Text.maxDigits) : Spells (.int i) (Text.ofInt i)
  | str {t literal : Text} (h : Quotes literal t) : Spells (.str t) literal
  | list {items : List (Value × Text)} (h : ∀ item ∈ items, Spells item.1 item.2) :
    Spells (.list (items.map Prod.fst)) ("[" ++ Text.join "," (items.map Prod.snd) ++ "]")
  | map {members : List Member} {gap indent : Text} (hgap : ∀ c ∈ gap, isSpace c = true)
    (hindent : ∀ c ∈ indent, isSpace c = true) (hkeys : ∀ m ∈ members, Quotes m.literal m.key)
    (h : ∀ m ∈ members, Spells m.value m.text) :
    Spells (.map false (Value.entriesOf (members.map Member.entry)))
      ("\x7b" ++ Text.join ("," ++ indent) (members.map (Member.spelled gap)) ++ "\x7d")

theorem Quotes.eq_cons {literal t : Text} (h : Quotes literal t) :
    ∃ s, literal = ('"' : CodePoint) :: s := by
  have hread := h []
  cases literal with
  | nil => cases hread
  | cons c s =>
    simp only [List.cons_append, readString] at hread
    split at hread
    · next hc => exact ⟨s, by rw [hc]⟩
    · cases hread

theorem ofInt_eq_cons (i : Int) :
    ∃ c s, Text.ofInt i = c :: s ∧ (c = '-' ∨ c.isDigit = true) := by
  cases i with
  | ofNat n =>
    obtain ⟨c, s, hn, hc, -⟩ := Text.ofNat_eq_cons n
    exact ⟨c, s, hn, .inr hc⟩
  | negSucc n => exact ⟨'-', _, rfl, .inl rfl⟩

/-- A spelling starts with neither white space nor a closing bracket. -/
theorem Spells.eq_cons {v : Value} {s : Text} (h : Spells v s) :
    ∃ c t, s = c :: t ∧ isSpace c = false ∧ c ≠ ']' := by
  cases h with
  | null => exact ⟨'n', _, rfl, by decide, by simp⟩
  | bool b =>
    cases b
    · exact ⟨'f', _, rfl, by decide, by simp⟩
    · exact ⟨'t', _, rfl, by decide, by simp⟩
  | @int i h =>
    obtain ⟨c, s, hs, rfl | hc⟩ := ofInt_eq_cons i
    · exact ⟨'-', s, hs, by decide, by simp⟩
    · exact ⟨c, s, hs, isSpace_of_isDigit hc, CodePoint.ne_of_isDigit hc (by decide)⟩
  | str h =>
    obtain ⟨s, rfl⟩ := h.eq_cons
    exact ⟨'"', s, rfl, by decide, by simp⟩
  | list h => exact ⟨'[', _, rfl, by decide, by simp⟩
  | map hgap hindent hkeys h => exact ⟨'\x7b', _, rfl, by decide, by simp⟩

theorem Spells.skipSpace {v : Value} {s : Text} (h : Spells v s) (rest : Text) :
    Json.skipSpace (s ++ rest) = s ++ rest := by
  obtain ⟨c, t, rfl, hspace, -⟩ := h.eq_cons
  exact skipSpace_cons _ hspace

/-! ## Items and members -/

theorem readItems_spelled {value : ValueReader} {items : List (Value × Text)} (hne : items ≠ [])
    (hvalue : ∀ item ∈ items, ∀ rest, Ends rest →
      value (skipSpace (item.2 ++ rest)) = .ok (item.1, rest))
    {bound : Nat} (hbound : items.length ≤ bound) (read : List Value) (rest : Text) :
    readItems value bound read
        (Text.join "," (items.map Prod.snd) ++ (']' : CodePoint) :: rest) =
      .ok (read.reverse ++ items.map Prod.fst, rest) := by
  induction items generalizing bound read with
  | nil => exact (hne rfl).elim
  | cons item items ih =>
    obtain ⟨n, rfl⟩ := Nat.exists_eq_succ_of_ne_zero (show bound ≠ 0 by rintro rfl; simp at hbound)
    obtain ⟨hitem, hitems⟩ := List.forall_mem_cons.mp hvalue
    cases items with
    | nil =>
      have hread := hitem ((']' : CodePoint) :: rest) (.of_cons (by decide))
      simp only [List.map_cons, List.map_nil, Text.join, List.intercalate_singleton, readItems,
        hread, skipSpace_cons rest (show isSpace ']' = false by decide)]
      simp
    | cons next items =>
      let more := Text.join "," ((next :: items).map Prod.snd) ++ (']' : CodePoint) :: rest
      have htext : Text.join "," ((item :: next :: items).map Prod.snd) ++ (']' : CodePoint) ::
          rest = item.2 ++ (',' : CodePoint) :: more := by
        simp [more, Text.join_cons_cons, Text.ofString]
      have hread := hitem ((',' : CodePoint) :: more) (.of_cons (by decide))
      rw [htext, readItems, hread]
      simp only [skipSpace_cons _ (show isSpace ',' = false by decide), if_true]
      rw [ih (by simp) hitems (by simpa using hbound)]
      simp

/-- One member, from its key up to what follows its value. -/
theorem readMembers_member {value : ValueReader} {m : Member} {gap s rest : Text}
    (hkey : Quotes m.literal m.key) (hgap : ∀ c ∈ gap, isSpace c = true)
    (hs : skipSpace s = m.spelled gap ++ rest)
    (hvalue : value (skipSpace (m.text ++ rest)) = .ok (m.value, rest))
    {c : CodePoint} {after : Text} (hnext : skipSpace rest = c :: after) (n : Nat)
    (read : Entries) :
    readMembers value (n + 1) read s =
      if c = ',' then readMembers value n (Value.insert (.str m.key) m.value read) after
      else if c = '\x7d' then .ok (Value.insert (.str m.key) m.value read, after)
      else .error .malformed := by
  have htext : m.spelled gap ++ rest =
      m.literal ++ (':' : CodePoint) :: (gap ++ (m.text ++ rest)) := by
    simp [Member.spelled, Text.ofString]
  have hstring := hkey ((':' : CodePoint) :: (gap ++ (m.text ++ rest)))
  have hcolon := skipSpace_cons (gap ++ (m.text ++ rest)) (show isSpace ':' = false by decide)
  have hmember := skipSpace_append hgap (m.text ++ rest)
  simp only [readMembers, hs, htext, hstring, hcolon, hmember, hvalue, hnext, if_true]

theorem join_spelled_eq_cons {members : List Member} (hne : members ≠ [])
    (hkeys : ∀ m ∈ members, Quotes m.literal m.key) (sep gap : Text) :
    ∃ s, Text.join sep (members.map (Member.spelled gap)) = ('"' : CodePoint) :: s := by
  cases members with
  | nil => exact (hne rfl).elim
  | cons m members =>
    obtain ⟨s, hs⟩ := (hkeys m (by simp)).eq_cons
    simp [Member.spelled, hs, Text.join, List.intercalate_cons_cons_left]

theorem readMembers_spelled {value : ValueReader} {members : List Member} {gap indent : Text}
    (hne : members ≠ []) (hgap : ∀ c ∈ gap, isSpace c = true)
    (hindent : ∀ c ∈ indent, isSpace c = true)
    (hkeys : ∀ m ∈ members, Quotes m.literal m.key)
    (hvalue : ∀ m ∈ members, ∀ rest, Ends rest →
      value (skipSpace (m.text ++ rest)) = .ok (m.value, rest))
    {bound : Nat} (hbound : members.length ≤ bound) {s rest : Text} (read : Entries)
    (hs : skipSpace s = Text.join ("," ++ indent) (members.map (Member.spelled gap)) ++
      ('\x7d' : CodePoint) :: rest) :
    readMembers value bound read s =
      .ok (members.foldl (fun es m => Value.insert (.str m.key) m.value es) read, rest) := by
  induction members generalizing bound read s with
  | nil => exact (hne rfl).elim
  | cons m members ih =>
    obtain ⟨n, rfl⟩ := Nat.exists_eq_succ_of_ne_zero (show bound ≠ 0 by rintro rfl; simp at hbound)
    obtain ⟨hfirst, hothers⟩ := List.forall_mem_cons.mp hvalue
    obtain ⟨hkey, hkeys⟩ := List.forall_mem_cons.mp hkeys
    cases members with
    | nil =>
      have hs : skipSpace s = m.spelled gap ++ ('\x7d' : CodePoint) :: rest := by
        simpa [Text.join] using hs
      rw [readMembers_member hkey hgap hs (hfirst _ (.of_cons (by decide)))
        (skipSpace_cons _ (by decide))]
      simp
    | cons next members =>
      let more := Text.join ("," ++ indent) ((next :: members).map (Member.spelled gap)) ++
        ('\x7d' : CodePoint) :: rest
      have hs : skipSpace s = m.spelled gap ++ (',' : CodePoint) :: (indent ++ more) := by
        simpa [Text.join_cons_cons, Text.ofString, more] using hs
      have hmore : skipSpace (indent ++ more) = more := by
        obtain ⟨t, ht⟩ := join_spelled_eq_cons (by simp) hkeys ("," ++ indent) gap
        rw [skipSpace_append hindent]
        simp only [more, ht, List.cons_append]
        exact skipSpace_cons _ (by decide)
      rw [readMembers_member hkey hgap hs (hfirst _ (.of_cons (by decide)))
        (skipSpace_cons _ (by decide)), if_pos rfl]
      rw [ih (by simp) hkeys hothers (by simpa using hbound) _ hmore]
      rfl

/-! ## Values -/

theorem readValue_other {c : CodePoint} (hc : c ≠ '"' ∧ c ≠ '[' ∧ c ≠ '\x7b') (n : Nat) (s : Text) :
    readValue (n + 1) (c :: s) = readScalar (c :: s) := by
  simp only [readValue, Text.ofString]
  simp only [String.reduceToList, List.map_cons, List.map_nil, Text.startsWith_cons,
    beq_false_of_ne hc.1.symm, beq_false_of_ne hc.2.1.symm, beq_false_of_ne hc.2.2.symm,
    Bool.false_and, Bool.false_eq_true, if_false]

theorem readValue_bracket (n : Nat) (s : Text) :
    readValue (n + 1) (('[' : CodePoint) :: s) =
      if (skipSpace s).startsWith "]" then .ok (.list [], (skipSpace s).drop 1)
      else (readItems (readValue n) (skipSpace s).length [] (skipSpace s)).map
        fun (xs, s) => (.list xs, s) := by
  simp [readValue, Text.ofString]

theorem readValue_brace (n : Nat) (s : Text) :
    readValue (n + 1) (('\x7b' : CodePoint) :: s) =
      if (skipSpace s).startsWith "\x7d" then .ok (.map false [], (skipSpace s).drop 1)
      else (readMembers (readValue n) (skipSpace s).length [] (skipSpace s)).map
        fun (es, s) => (.map false es, s) := by
  simp [readValue, Text.ofString]

theorem readValue_list {n : Nat} {items : List (Value × Text)}
    (h : ∀ item ∈ items, Spells item.1 item.2)
    (hitem : ∀ item ∈ items, ∀ rest, Ends rest →
      readValue n (item.2 ++ rest) = .ok (item.1, rest)) (rest : Text) :
    readValue (n + 1) ("[" ++ Text.join "," (items.map Prod.snd) ++ "]" ++ rest) =
      .ok (.list (items.map Prod.fst), rest) := by
  have htext : ("[" : Text) ++ Text.join "," (items.map Prod.snd) ++ "]" ++ rest =
      ('[' : CodePoint) :: (Text.join "," (items.map Prod.snd) ++ (']' : CodePoint) :: rest) := by
    simp [Text.ofString]
  rw [htext, readValue_bracket]
  cases items with
  | nil => simp [Text.join, skipSpace, isSpace, Text.ofString]
  | cons item items =>
    obtain ⟨c, s, hcode, hspace, hclose⟩ := (h item (by simp)).eq_cons
    obtain ⟨u, hu⟩ : ∃ u, Text.join "," ((item :: items).map Prod.snd) ++ (']' : CodePoint) ::
        rest = c :: u := by
      simp [hcode, Text.join, List.intercalate_cons_cons_left]
    have hbound : (item :: items).length ≤ (c :: u).length := by
      have := Text.count_le_join (show Text.ofString "," ≠ [] by decide)
        ((item :: items).map Prod.snd)
      rw [← hu]
      simp only [List.length_append, List.length_cons, List.length_map] at this ⊢
      omega
    have hskip : ∀ x ∈ item :: items, ∀ rest, Ends rest →
        readValue n (skipSpace (x.2 ++ rest)) = .ok (x.1, rest) := by
      intro x hx rest hrest
      rw [(h x hx).skipSpace, hitem x hx rest hrest]
    have hitems := readItems_spelled (List.cons_ne_nil item items) hskip hbound [] rest
    rw [hu] at hitems ⊢
    rw [skipSpace_cons u hspace, hitems]
    simp [Text.ofString, hclose.symm, Except.map]

theorem readValue_map {n : Nat} {members : List Member} {gap indent : Text}
    (hgap : ∀ c ∈ gap, isSpace c = true) (hindent : ∀ c ∈ indent, isSpace c = true)
    (hkeys : ∀ m ∈ members, Quotes m.literal m.key) (h : ∀ m ∈ members, Spells m.value m.text)
    (hmember : ∀ m ∈ members, ∀ rest, Ends rest →
      readValue n (m.text ++ rest) = .ok (m.value, rest)) (rest : Text) :
    readValue (n + 1)
        ("\x7b" ++ Text.join ("," ++ indent) (members.map (Member.spelled gap)) ++ "\x7d" ++ rest) =
      .ok (.map false (Value.entriesOf (members.map Member.entry)), rest) := by
  let inner := Text.join ("," ++ indent) (members.map (Member.spelled gap)) ++
    ('\x7d' : CodePoint) :: rest
  have htext : ("\x7b" : Text) ++ Text.join ("," ++ indent) (members.map (Member.spelled gap)) ++
      "\x7d" ++ rest = ('\x7b' : CodePoint) :: inner := by
    simp [inner, Text.ofString]
  rw [htext, readValue_brace]
  by_cases hne : members = []
  · subst hne
    simp [inner, Text.join, skipSpace, isSpace, Text.ofString, Value.entriesOf]
  · obtain ⟨s, hs⟩ := join_spelled_eq_cons hne hkeys ("," ++ indent) gap
    have hskip : skipSpace inner = inner := by
      simp only [inner, hs, List.cons_append]
      exact skipSpace_cons _ (by decide)
    have hbound : members.length ≤ inner.length := by
      have := Text.count_le_join (show ("," : Text) ++ indent ≠ [] by simp [Text.ofString])
        (members.map (Member.spelled gap))
      simp only [inner, List.length_append, List.length_cons, List.length_map] at this ⊢
      omega
    have hvalue : ∀ m ∈ members, ∀ rest, Ends rest →
        readValue n (skipSpace (m.text ++ rest)) = .ok (m.value, rest) := by
      intro m hm rest hrest
      rw [(h m hm).skipSpace, hmember m hm rest hrest]
    have hmembers := readMembers_spelled hne hgap hindent hkeys hvalue hbound [] hskip
    have hopen : inner.startsWith "\x7d" = false := by
      simp only [inner, hs]
      rfl
    rw [hskip, hmembers, hopen]
    simp [Value.entriesOf, List.foldl_map, Member.entry, Except.map]

/-- **A spelling is read back**, up to exactly its end. -/
theorem readValue_spells {n : Nat} {v : Value} {s rest : Text} (h : Spells v s)
    (hn : s.length ≤ n) (hrest : Ends rest) : readValue (n + 1) (s ++ rest) = .ok (v, rest) := by
  -- A bracket takes one call, and the items and members behind it are shorter by that bracket.
  induction h generalizing n rest with
  | null =>
    have htext : ("null" : Text) ++ rest = ('n' : CodePoint) :: ("ull" ++ rest) := rfl
    rw [htext, readValue_other (by simp), readScalar, readNumber_eq_none (by simp) (by decide)]
    simp [readWord, Text.ofString]
  | bool b =>
    cases b with
    | true =>
      have htext : Literal.boolean true ++ rest = ('t' : CodePoint) :: ("rue" ++ rest) := rfl
      rw [htext, readValue_other (by simp), readScalar, readNumber_eq_none (by simp) (by decide)]
      simp [readWord, Text.ofString]
    | false =>
      have htext : Literal.boolean false ++ rest = ('f' : CodePoint) :: ("alse" ++ rest) := rfl
      rw [htext, readValue_other (by simp), readScalar, readNumber_eq_none (by simp) (by decide)]
      simp [readWord, Text.ofString]
  | @int i h =>
    have hnumber := readNumber_ofInt (i := i) hrest
    have hdigits : (Value.int i).digits ≤ Text.maxDigits :=
      (Text.length_ofNat_le_iff (by decide)).mpr h
    obtain ⟨c, s, hs, hc⟩ := ofInt_eq_cons i
    have hother : c ≠ '"' ∧ c ≠ '[' ∧ c ≠ '\x7b' := by
      rcases hc with rfl | hdigit
      · simp
      · have hne {d : Char} := @CodePoint.ne_of_isDigit c hdigit d
        exact ⟨hne (by decide), hne (by decide), hne (by decide)⟩
    rw [hs, List.cons_append] at hnumber ⊢
    rw [readValue_other hother, readScalar, hnumber]
    exact if_pos hdigits
  | @str t literal h =>
    have hstring := h rest
    obtain ⟨s, rfl⟩ := h.eq_cons
    rw [readValue, hstring]
    simp [Text.ofString]
  | @list items h ih =>
    have hbracket : List.length ("[" : Text) = 1 := rfl
    simp only [List.length_append, hbracket] at hn
    obtain ⟨m, rfl⟩ := Nat.exists_eq_add_of_le' (show 1 ≤ n by omega)
    apply readValue_list h
    intro item hitem rest hrest
    have hlength : item.2.length ≤ (Text.join "," (items.map Prod.snd)).length :=
      Text.length_le_join (List.mem_map_of_mem hitem)
    exact ih item hitem (by omega) hrest
  | @map members gap indent hgap hindent hkeys h ih =>
    have hbrace : List.length ("\x7b" : Text) = 1 := rfl
    simp only [List.length_append, hbrace] at hn
    obtain ⟨k, rfl⟩ := Nat.exists_eq_add_of_le' (show 1 ≤ n by omega)
    apply readValue_map hgap hindent hkeys h
    intro m hm rest hrest
    have hlength : (m.spelled gap).length ≤
        (Text.join ("," ++ indent) (members.map (Member.spelled gap))).length :=
      Text.length_le_join (List.mem_map_of_mem hm)
    rw [Member.spelled, List.length_append] at hlength
    exact ih m hm (by omega) hrest

/-- The reader accepts a spelling as a document, white space behind it included. -/
theorem read_spells_append {v : Value} {s rest : Text} (h : Spells v s)
    (hrest : ∀ c ∈ rest, isSpace c = true) : read (s ++ rest) = some v := by
  have hlength : s.length ≤ (s ++ rest).length := by simp
  have hread := readValue_spells h hlength (.of_spaces hrest)
  have hend : skipSpace rest = [] := List.dropWhile_eq_nil_iff.mpr hrest
  rw [read_eq_some]
  simp only [document, h.skipSpace, hread, hend, List.isEmpty_nil, if_true]

theorem read_spells {v : Value} {s : Text} (h : Spells v s) : read s = some v := by
  simpa using read_spells_append h (List.forall_mem_nil _)

end Json

end CompositeScript
