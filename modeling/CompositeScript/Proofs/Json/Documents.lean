import CompositeScript.Proofs.Json.Strings

/-! The values that documents denote.

A document without surrogates denotes a value of `Document`: its integers are short enough to be
read again, its texts hold no surrogate pair, and the keys of its maps are texts that differ. The
proof carries along that what is left of the text holds no surrogates either. -/

namespace CompositeScript

theorem Text.hasSurrogate_of_suffix {r s : Text} (h : r <:+ s) (hs : s.hasSurrogate = false) :
    r.hasSurrogate = false := by
  simp only [hasSurrogate, List.any_eq_false] at hs ⊢
  exact fun c hc => hs c (h.subset hc)

namespace Json

/-- The keys of a map that a document can hold: texts without pairs, each of them once. -/
structure Keyed (es : Entries) : Prop where
  texts : ∀ key ∈ es.map Prod.fst, ∃ t : Text, key = .str t ∧ t.Unpaired
  distinct : (es.map Prod.fst).Pairwise fun k l => Value.sameKey k l = false

/-- The values that documents denote. -/
inductive Document : Value → Prop
  | null : Document .null
  | bool (b : Bool) : Document (.bool b)
  | int {i : Int} (h : i.natAbs < 10 ^ Text.maxDigits) : Document (.int i)
  | float (x : Double) : Document (.float x)
  | str {t : Text} (h : t.Unpaired) : Document (.str t)
  | list {xs : List Value} (h : ∀ x ∈ xs, Document x) : Document (.list xs)
  | map {es : Entries} (keys : Keyed es) (h : ∀ e ∈ es, Document e.2) : Document (.map false es)

/-! ## Keys -/

theorem mem_insert {key value : Value} {es : Entries} {e : Value × Value}
    (h : e ∈ Value.insert key value es) : e.2 = value ∨ e ∈ es := by
  fun_induction Value.insert key value es with
  | case1 => exact .inl (by rw [List.mem_singleton.mp h])
  | case2 k v es _ =>
    rcases List.mem_cons.mp h with rfl | h
    · exact .inl rfl
    · exact .inr (List.mem_cons_of_mem _ h)
  | case3 k v es _ ih =>
    rcases List.mem_cons.mp h with rfl | h
    · exact .inr List.mem_cons_self
    · exact (ih h).imp_right (List.mem_cons_of_mem _)

theorem insert_of_fresh {key value : Value} {es : Entries}
    (h : ∀ k ∈ es.map Prod.fst, Value.sameKey k key = false) :
    Value.insert key value es = es ++ [(key, value)] := by
  induction es with
  | nil => rfl
  | cons e es ih =>
    obtain ⟨hk, hes⟩ := List.forall_mem_cons.mp h
    rw [Value.insert, if_neg (by simp [hk]), ih hes]
    rfl

theorem keys_insert_of_present {key value : Value} {es : Entries}
    (h : ∃ k ∈ es.map Prod.fst, Value.sameKey k key = true) :
    (Value.insert key value es).map Prod.fst = es.map Prod.fst := by
  fun_induction Value.insert key value es with
  | case1 => simp at h
  | case2 => rfl
  | case3 k v es hk ih =>
    simp only [List.map_cons, List.exists_mem_cons_iff, hk, Bool.false_eq_true, false_or] at h ⊢
    rw [ih h]

theorem Keyed.insert {es : Entries} (h : Keyed es) {t : Text} (ht : t.Unpaired) (v : Value) :
    Keyed (Value.insert (.str t) v es) := by
  by_cases hpresent : ∃ k ∈ es.map Prod.fst, Value.sameKey k (.str t) = true
  · have hkeys := @keys_insert_of_present (.str t) v es hpresent
    exact ⟨by rw [hkeys]; exact h.texts, by rw [hkeys]; exact h.distinct⟩
  · have hfresh : ∀ k ∈ es.map Prod.fst, Value.sameKey k (.str t) = false := by
      intro k hk
      rw [Bool.eq_false_iff]
      exact fun hsame => hpresent ⟨k, hk, hsame⟩
    rw [insert_of_fresh hfresh]
    constructor
    · intro k hk
      rw [List.map_append, List.mem_append] at hk
      rcases hk with hk | hk
      · exact h.texts k hk
      · exact ⟨t, List.mem_singleton.mp hk, ht⟩
    · rw [List.map_append, List.pairwise_append]
      refine ⟨h.distinct, List.pairwise_singleton .., fun k hk l hl => ?_⟩
      rw [List.mem_singleton.mp hl]
      exact hfresh k hk

theorem Document.insert {es : Entries} (h : Document (.map false es)) {t : Text}
    (ht : t.Unpaired) {v : Value} (hv : Document v) :
    Document (.map false (Value.insert (.str t) v es)) := by
  cases h with
  | map keys h =>
    refine .map (keys.insert ht v) fun e he => ?_
    rcases mem_insert he with rfl | he
    · exact hv
    · exact h e he

theorem Keyed.fresh {read es : Entries} {t : Text} {v : Value}
    (h : Keyed (read ++ (.str t, v) :: es)) :
    Value.insert (.str t) v read = read ++ [(.str t, v)] := by
  apply insert_of_fresh
  intro k hk
  have hdistinct := h.distinct
  rw [List.map_append, List.map_cons, List.pairwise_append] at hdistinct
  exact hdistinct.2.2 k hk _ (by simp)

theorem Keyed.foldl_insert {read es : Entries} (h : Keyed (read ++ es)) :
    es.foldl (fun es e => Value.insert e.1 e.2 es) read = read ++ es := by
  induction es generalizing read with
  | nil => simp
  | cons e es ih =>
    obtain ⟨key, v⟩ := e
    obtain ⟨t, rfl, -⟩ := h.texts key (by simp)
    rw [List.foldl_cons, h.fresh, ih (by simpa using h)]
    simp

theorem Keyed.entriesOf_eq {es : Entries} (h : Keyed es) : Value.entriesOf es = es :=
  @foldl_insert [] es h

theorem keyed_entriesOf {es : Entries}
    (h : ∀ e ∈ es, ∃ t : Text, e.1 = .str t ∧ t.Unpaired) : Keyed (Value.entriesOf es) := by
  have hinsert : ∀ read, Keyed read →
      Keyed (es.foldl (fun es e => Value.insert e.1 e.2 es) read) := by
    induction es with
    | nil => exact fun read hread => hread
    | cons e es ih =>
      intro read hread
      obtain ⟨⟨t, ht, hpair⟩, hes⟩ := List.forall_mem_cons.mp h
      rw [List.foldl_cons, ht]
      exact ih hes _ (hread.insert hpair e.2)
  exact hinsert [] ⟨by simp, .nil⟩

/-- No value comes from elsewhere than the insertions. -/
theorem mem_entriesOf {es : Entries} {e : Value × Value} (h : e ∈ Value.entriesOf es) :
    ∃ e' ∈ es, e.2 = e'.2 := by
  have hinsert : ∀ read, e ∈ es.foldl (fun es e => Value.insert e.1 e.2 es) read →
      e ∈ read ∨ ∃ e' ∈ es, e.2 = e'.2 := by
    clear h
    induction es with
    | nil => exact fun read h => .inl h
    | cons e' es ih =>
      intro read h
      rcases ih _ h with hread | ⟨e'', he'', hvalue⟩
      · rcases mem_insert hread with hvalue | hread
        · exact .inr ⟨e', by simp, hvalue⟩
        · exact .inl hread
      · exact .inr ⟨e'', List.mem_cons_of_mem _ he'', hvalue⟩
  rcases hinsert [] h with hnil | hes
  · cases hnil
  · exact hes

/-! ## Numbers -/

theorem wholePart_spec {s whole rest : Text} (h : wholePart s = some (whole, rest)) :
    (∀ c ∈ whole, c.isDigit = true) ∧ rest <:+ s := by
  cases s with
  | nil => cases h
  | cons c s =>
    simp only [wholePart] at h
    split_ifs at h with h0 hd
    · cases h
      subst h0
      refine ⟨fun c hc => ?_, List.suffix_cons ..⟩
      rw [List.mem_singleton.mp hc]
      decide
    · cases h
      exact ⟨fun _ => List.mem_takeWhile_imp, List.dropWhile_suffix _⟩

theorem fractionPart_suffix (s : Text) : (fractionPart s).elim s Prod.snd <:+ s := by
  unfold fractionPart
  split
  · exact List.suffix_refl _
  · split
    · exact (List.dropWhile_suffix _).trans (List.suffix_cons ..)
    · exact List.suffix_refl _

theorem exponentPart_suffix (s : Text) : (exponentPart s).elim s Prod.snd <:+ s := by
  unfold exponentPart
  split
  · exact List.suffix_refl _
  · next c s =>
    dsimp only
    have hsign : ∀ b : Bool, (if b then s.drop 1 else s) <:+ c :: s := by
      intro b
      cases b
      · exact List.suffix_cons ..
      · exact (List.drop_suffix ..).trans (List.suffix_cons ..)
    by_cases hexp : (c = 'e' || c = 'E') && !(digits (if Text.startsWith s "-" ||
        Text.startsWith s "+" then s.drop 1 else s)).1.isEmpty
    · rw [if_pos hexp]
      exact (List.dropWhile_suffix _).trans (hsign _)
    · rw [if_neg hexp]
      exact List.suffix_refl _

theorem readSize_document {negative : Bool} {s rest : Text} {v : Value}
    (h : readSize negative s = some (v, rest)) (hv : v.digits ≤ Text.maxDigits) :
    Document v ∧ rest <:+ s := by
  unfold readSize at h
  split at h
  · cases h
  · next whole s₁ hwhole =>
    obtain ⟨-, hsuffix⟩ := wholePart_spec hwhole
    split at h
    · cases h
      exact ⟨.int ((Text.length_ofNat_le_iff (by decide)).mp hv), hsuffix⟩
    · cases h
      refine ⟨.float _, ?_⟩
      exact (exponentPart_suffix _).trans ((fractionPart_suffix _).trans hsuffix)

theorem readNumber_document {s rest : Text} {v : Value} (h : readNumber s = some (v, rest))
    (hv : v.digits ≤ Text.maxDigits) : Document v ∧ rest <:+ s := by
  unfold readNumber at h
  split at h
  · obtain ⟨hv, hrest⟩ := readSize_document h hv
    exact ⟨hv, hrest.trans (List.drop_suffix ..)⟩
  · exact readSize_document h hv

/-! ## Values -/

theorem readWord_document {s rest : Text} {v : Value} (h : readWord s = some (v, rest)) :
    Document v ∧ rest <:+ s := by
  unfold readWord at h
  split_ifs at h <;> cases h
  · exact ⟨.null, List.drop_suffix ..⟩
  · exact ⟨.bool _, List.drop_suffix ..⟩
  · exact ⟨.bool _, List.drop_suffix ..⟩
  · exact ⟨.float _, List.drop_suffix ..⟩
  · exact ⟨.float _, List.drop_suffix ..⟩
  · exact ⟨.float _, List.drop_suffix ..⟩

theorem readScalar_document {s rest : Text} {v : Value} (h : readScalar s = .ok (v, rest)) :
    Document v ∧ rest <:+ s := by
  unfold readScalar at h
  split at h
  · next w s₁ hnumber =>
    split at h
    · next hdigits =>
      cases h
      exact readNumber_document hnumber hdigits
    · cases h
  · split at h
    · cases h
    · next r hword =>
      cases h
      exact readWord_document hword

/-- The reader yields values of documents only, from texts without surrogates. -/
def Faithful (value : ValueReader) : Prop :=
  ∀ {s : Text} {v : Value} {rest : Text}, s.hasSurrogate = false → value s = .ok (v, rest) →
    Document v ∧ rest.hasSurrogate = false

theorem skipSpace_hasSurrogate {s : Text} (hs : s.hasSurrogate = false) :
    (skipSpace s).hasSurrogate = false :=
  Text.hasSurrogate_of_suffix (List.dropWhile_suffix _) hs

/-- What stands behind the next part of a text without surrogates. -/
theorem hasSurrogate_of_skipSpace {s rest : Text} {c : CodePoint} (hs : s.hasSurrogate = false)
    (h : skipSpace s = c :: rest) : rest.hasSurrogate = false := by
  have := skipSpace_hasSurrogate hs
  rw [h] at this
  exact (Text.hasSurrogate_cons.mp this).2

section
variable {value : ValueReader} (hvalue : Faithful value)
include hvalue

theorem readItems_document {bound : Nat} {items xs : List Value} {s rest : Text}
    (hs : s.hasSurrogate = false) (hitems : ∀ x ∈ items, Document x)
    (h : readItems value bound items s = .ok (xs, rest)) :
    (∀ x ∈ xs, Document x) ∧ rest.hasSurrogate = false := by
  fun_induction readItems value bound items s with
  | case1 | case2 | case3 | case6 => cases h
  | case4 n items s v s₁ hv s₂ hnext ih =>
    obtain ⟨hdoc, hs₁⟩ := hvalue (skipSpace_hasSurrogate hs) hv
    exact ih (hasSurrogate_of_skipSpace hs₁ hnext) (List.forall_mem_cons.mpr ⟨hdoc, hitems⟩) h
  | case5 n items s v s₁ hv s₂ hnext _ =>
    obtain ⟨hdoc, hs₁⟩ := hvalue (skipSpace_hasSurrogate hs) hv
    cases h
    refine ⟨fun x hx => ?_, hasSurrogate_of_skipSpace hs₁ hnext⟩
    exact List.forall_mem_cons.mpr ⟨hdoc, hitems⟩ x (List.mem_reverse.mp hx)

theorem readMember_document {s key s₁ s₂ s₃ : Text} {colon : CodePoint} {v : Value}
    (hs : s.hasSurrogate = false) (hkey : readString (skipSpace s) = some (key, s₁))
    (hcolon : skipSpace s₁ = colon :: s₂)
    (hv : (if colon = ':' then value (skipSpace s₂) else .error .malformed) = .ok (v, s₃)) :
    key.Unpaired ∧ Document v ∧ s₃.hasSurrogate = false := by
  obtain ⟨hunpaired, hs₁⟩ := readString_unpaired (skipSpace_hasSurrogate hs) hkey
  have hs₂ := skipSpace_hasSurrogate (hasSurrogate_of_skipSpace hs₁ hcolon)
  split at hv
  · exact ⟨hunpaired, hvalue hs₂ hv⟩
  · cases hv

theorem readMembers_document {bound : Nat} {entries es : Entries} {s rest : Text}
    (hs : s.hasSurrogate = false) (hentries : Document (.map false entries))
    (h : readMembers value bound entries s = .ok (es, rest)) :
    Document (.map false es) ∧ rest.hasSurrogate = false := by
  fun_induction readMembers value bound entries s with
  | case1 | case2 | case3 | case4 | case5 | case8 => cases h
  | case6 n entries s key s₁ hkey colon s₂ hcolon v s₃ hv s₄ _ hnext ih =>
    obtain ⟨hunpaired, hdoc, hs₃⟩ := readMember_document hvalue hs hkey hcolon hv
    exact ih (hasSurrogate_of_skipSpace hs₃ hnext) (hentries.insert hunpaired hdoc) h
  | case7 n entries s key s₁ hkey colon s₂ hcolon v s₃ hv s₄ _ hnext =>
    obtain ⟨hunpaired, hdoc, hs₃⟩ := readMember_document hvalue hs hkey hcolon hv
    simp only [Except.ok.injEq, Prod.mk.injEq] at h
    rw [← h.1, ← h.2]
    exact ⟨hentries.insert hunpaired hdoc, hasSurrogate_of_skipSpace hs₃ hnext⟩

end

theorem readValue_faithful (n : Nat) : Faithful (readValue n) := by
  induction n with
  | zero => intro s v rest _ h; cases h
  | succ n ih =>
    intro s v rest hs h
    have hinner := skipSpace_hasSurrogate (Text.hasSurrogate_of_suffix (List.drop_suffix 1 s) hs)
    have htail := Text.hasSurrogate_of_suffix (List.drop_suffix 1 _) hinner
    simp only [readValue] at h
    split at h
    · split at h
      · cases h
      · next t s₁ hstring =>
        cases h
        obtain ⟨hunpaired, hrest⟩ := readString_unpaired hs hstring
        exact ⟨.str hunpaired, hrest⟩
    split at h
    · split at h
      · cases h
        exact ⟨.list (by simp), htail⟩
      · cases hitems : readItems (readValue n) _ [] _ with
        | error => rw [hitems] at h; cases h
        | ok r =>
          rw [hitems] at h
          cases h
          obtain ⟨hdocs, hrest⟩ := readItems_document ih hinner (by simp) hitems
          exact ⟨.list hdocs, hrest⟩
    have hempty : Document (.map false []) := .map ⟨by simp, by simp⟩ (by simp)
    split at h
    · split at h
      · cases h
        exact ⟨hempty, htail⟩
      · cases hmembers : readMembers (readValue n) _ [] _ with
        | error => rw [hmembers] at h; cases h
        | ok r =>
          rw [hmembers] at h
          cases h
          exact readMembers_document ih hinner hempty hmembers
    obtain ⟨hdoc, hrest⟩ := readScalar_document h
    exact ⟨hdoc, Text.hasSurrogate_of_suffix hrest hs⟩

/-- **What documents denote**, if they hold no surrogates themselves. -/
theorem read_document {t : Text} {v : Value} (ht : t.hasSurrogate = false)
    (h : read t = some v) : Document v := by
  have h := read_eq_some.mp h
  simp only [document] at h
  split at h
  · cases h
  · next w rest hw =>
    split at h
    · cases h
      exact (readValue_faithful _ (skipSpace_hasSurrogate ht) hw).1
    · cases h

end Json

end CompositeScript
