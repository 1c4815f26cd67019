import CompositeScript.Proofs.Quiet
import CompositeScript.Proofs.Json.Spelling
import CompositeScript.Fragment.Gap

/-! Titles of slots.

A title is written as a comment in front of its slot, with a blank inside every `*/` in it. No `*/`
comes up again, neither in what is left (`unclosed_splitClosings`) nor at its borders with the marks
around it, so the comment ends with its own mark (`find?_comment`). Apart from the comment a title
changes nothing: the slot is rendered as it is without one (`render_of_title`). -/

namespace CompositeScript

/-! ## The end of a comment -/

namespace Text

/-- The first place in a text, from `start` on, where `part` stands. -/
def find? (part : Text) (start : Nat) (t : Text) : Option Nat :=
  ((t.drop start).tails.findIdx? (startsWith · part)).map (start + ·)

/-- No `/` stands right behind a `*`. -/
def Unclosed (t : Text) : Prop := t.IsChain fun a b : CodePoint => a = '*' → b ≠ '/'

instance (t : Text) : Decidable t.Unclosed := inferInstanceAs (Decidable (List.IsChain _ t))

/-- Two texts without a `*/` make none where they meet, unless one brings the star and the other the
slash. -/
theorem Unclosed.append {s t : Text} (hs : s.Unclosed) (ht : t.Unclosed)
    (h : s.getLast? ≠ some ('*' : CodePoint) ∨ t.head? ≠ some ('/' : CodePoint)) :
    (s ++ t).Unclosed := by
  refine List.isChain_append.mpr ⟨hs, ht, ?_⟩
  rintro a ha b hb rfl rfl
  exact h.elim (· ha) (· hb)

theorem startsWith_closing (c : CodePoint) (s : Text) :
    startsWith (c :: s) "*/" = true ↔ c = '*' ∧ s.head? = some ('/' : CodePoint) := by
  have hclosing : ("*/" : Text) = [('*' : CodePoint), ('/' : CodePoint)] := rfl
  rw [hclosing, startsWith_cons, Bool.and_eq_true, beq_iff_eq, eq_comm]
  cases s with
  | nil => simp [startsWith]
  | cons d s => simp [eq_comm (a := d)]

/-- If a text holds no `*/`, not even together with a star behind it, then the first `*/` stands
where the text ends. -/
theorem findIdx?_closing {u : Text} (h : Unclosed (u ++ [('*' : CodePoint)])) (rest : Text) :
    (u ++ "*/" ++ rest).tails.findIdx? (startsWith · "*/") = some u.length := by
  induction u with
  | nil => simp [List.findIdx?_cons, ofString]
  | cons c u ih =>
    have hopen : startsWith (c :: (u ++ "*/" ++ rest)) "*/" = false := by
      rw [Bool.eq_false_iff, ne_eq, startsWith_closing]
      rintro ⟨rfl, hhead⟩
      cases u with
      | nil => simp [ofString] at hhead
      | cons d u =>
        obtain rfl : d = '/' := by simpa using hhead
        exact (List.isChain_cons_cons.mp h).1 rfl rfl
    have htail := ih (List.isChain_cons.mp h).2
    simp only [List.cons_append, List.tails_cons, List.findIdx?_cons, hopen, htail]
    rfl

theorem find?_closing {body : Text} (h : Unclosed (body ++ [('*' : CodePoint)])) (rest : Text) :
    find? "*/" 2 ("/*" ++ body ++ "*/" ++ rest) = some (2 + body.length) := by
  have hbehind : ("/*" ++ body ++ "*/" ++ rest).drop 2 = body ++ "*/" ++ rest := rfl
  rw [find?, hbehind, findIdx?_closing h, Option.map_some]

end Text

namespace Fragment.Lexeme

theorem blockCommentEnd_eq_findIdx? (n : Nat) (s : Text) :
    blockCommentEnd n s = (s.tails.findIdx? (Text.startsWith · "*/")).map fun i => n + i + 2 := by
  induction s generalizing n with
  | nil => rfl
  | cons c s ih =>
    have hends : (c = '*' && starts (· = '/') s) = Text.startsWith (c :: s) "*/" := by
      rw [Bool.eq_iff_iff, Text.startsWith_closing]
      cases s <;> simp [starts]
    rw [blockCommentEnd, hends, List.tails_cons, List.findIdx?_cons, ih]
    cases Text.startsWith (c :: s) "*/" with
    | true => rfl
    | false =>
      simp only [Bool.false_eq_true, if_false, Option.map_map]
      congr 1
      funext i
      simp only [Function.comp_apply]
      omega

/-- A comment in a script goes up to and with the first `*/` behind its opening mark. -/
theorem blank_of_find? {s : Text} {closing : Nat} (fresh : Bool)
    (hstart : Text.startsWith s "/*" = true) (hclosing : Text.find? "*/" 2 s = some closing) :
    blank fresh s = some (.comment, some (closing + 2)) := by
  obtain ⟨t, rfl⟩ := List.isPrefixOf_iff_prefix.mp hstart
  have hspaces : spaces ("/*" ++ t) = none := rfl
  obtain ⟨i, hi, rfl⟩ := Option.map_eq_some_iff.mp hclosing
  simp only [blank, hspaces, hstart, if_true, blockCommentEnd_eq_findIdx?, hi, Option.map_some]

end Fragment.Lexeme

/-! ## Titles -/

namespace Slot

theorem head?_splitClosings (t : Text) : (splitClosings t).head? = t.head? := by
  rcases t with _ | ⟨a, _ | ⟨b, t⟩⟩
  · rfl
  · rfl
  · rw [splitClosings]
    split
    · next h =>
      obtain ⟨rfl, -⟩ : a = '*' ∧ b = '/' := by simpa using h
      rfl
    · rfl

theorem unclosed_splitClosings (t : Text) : (splitClosings t).Unclosed := by
  induction t using List.twoStepInduction with
  | nil => exact .nil
  | singleton a => exact .singleton a
  | cons_cons a b t ih ih' =>
    rw [splitClosings]
    split
    · exact .append (by decide) ih (.inl (by decide))
    · next h =>
      refine List.isChain_cons.mpr ⟨fun c hc => ?_, ih' b⟩
      obtain rfl : b = c := by simpa [head?_splitClosings] using hc
      simpa using h

/-- The comment that shows a title. -/
def comment (title : Text) : Text := "/* " ++ splitClosings title ++ " */"

theorem titleComment_str (title : Text) :
    titleComment (.str title) = .ok (comment title ++ " ") := by
  simp [titleComment, comment, Text.ofString]

/-- The first `*/` in the comment of a title is its own end, whatever stands behind it. -/
theorem find?_comment (title : Text) :
    ∃ closing, (comment title).length = closing + 2 ∧
      ∀ rest, Text.find? "*/" 2 (comment title ++ rest) = some closing := by
  have hcomment : comment title = "/*" ++ (" " ++ splitClosings title ++ " ") ++ "*/" := by
    simp [comment, Text.ofString]
  -- The blanks keep a slash at the front and a star at the end of the title from the two marks.
  have hfront : Text.Unclosed (" " ++ splitClosings title) :=
    .append (by decide) (unclosed_splitClosings title) (.inl (by decide))
  have hbody : Text.Unclosed (" " ++ splitClosings title ++ " ") :=
    hfront.append (by decide) (.inr (by decide))
  have hunclosed := hbody.append (.singleton ('*' : CodePoint)) (.inr (by decide))
  refine ⟨2 + (" " ++ splitClosings title ++ " ").length, ?_, fun rest => ?_⟩
  · rw [hcomment, List.length_append, List.length_append]
    rfl
  · rw [hcomment, Text.find?_closing hunclosed]

/-- A title is written piece by piece, with a blank inside each `*/` between two pieces. -/
theorem exists_pieces (title : Text) :
    ∃ pieces, title = Text.join "*/" pieces ∧ splitClosings title = Text.join "* /" pieces := by
  suffices h : ∃ p ps, title = Text.join "*/" (p :: ps) ∧
      splitClosings title = Text.join "* /" (p :: ps) by
    obtain ⟨p, ps, h⟩ := h
    exact ⟨p :: ps, h⟩
  induction title using List.twoStepInduction with
  | nil => exact ⟨[], [], rfl, rfl⟩
  | singleton a => exact ⟨[a], [], rfl, rfl⟩
  | cons_cons a b t ih ih' =>
    rw [splitClosings]
    split
    · next h =>
      obtain ⟨rfl, rfl⟩ : a = '*' ∧ b = '/' := by simpa using h
      obtain ⟨p, ps, ht, hsplit⟩ := ih
      refine ⟨[], p :: ps, ?_, ?_⟩
      · rw [Text.join_cons_cons, ← ht]
        rfl
      · rw [Text.join_cons_cons, ← hsplit]
        rfl
    · obtain ⟨p, ps, ht, hsplit⟩ := ih' b
      refine ⟨a :: p, ps, ?_, ?_⟩
      · rw [ht]
        cases ps <;> rfl
      · rw [hsplit]
        cases ps <;> rfl

end Slot

/-! ## Slots without their titles -/

namespace Value

/-- The map without a field. -/
def without (field : Text) : Value → Value
  | map r es => map r (es.filter fun e => !e.1.isText field)
  | v => v

theorem get?_without_self (field : Text) (v : Value) : (v.without field).get? field = none := by
  cases v with
  | map r es => simp [without, get?, entries?, lookup, List.find?_filter]
  | _ => rfl

theorem get?_without_of_ne {field other : Text} (h : other ≠ field) (v : Value) :
    (v.without field).get? other = v.get? other := by
  cases v with
  | map r es =>
    have hkey (k : Value) : (!k.isText field && k.isText other) = k.isText other := by
      cases k with
      | str t => grind [isText]
      | _ => rfl
    simp [without, get?, entries?, lookup, List.find?_filter, hkey]
  | _ => rfl

theorem hasTag_without {field : Text} (h : field ≠ "type") (v : Value) (tag : Tag) :
    (v.without field).hasTag tag = v.hasTag tag := by
  rw [hasTag, tagName?, get?_without_of_ne h.symm]
  rfl

end Value

namespace Slot

theorem dress_of_title {slot : Value} {title : Text} (content : Text)
    (htitle : slot.get? "title" = some (.str title)) (hne : title ≠ []) :
    dress slot content = do
      let text ← dress (slot.without "title") content
      return comment title ++ (" " ++ text) := by
  have hset : setField? slot "title" = some (.str title) := by
    simp [setField?, htitle, Value.isTruthy, hne]
  have hunset : setField? (slot.without "title") "title" = none := by
    simp [setField?, Value.get?_without_self]
  have hparams : setField? (slot.without "title") "params" = setField? slot "params" := by
    rw [setField?, Value.get?_without_of_ne (by decide), setField?]
  simp only [dress, hset, hunset, hparams, titleComment_str, Gen.ofExcept, pure_bind]
  cases setField? slot "params" with
  | none => simp
  | some ps => simp

/-- A title comes in front as a comment and changes nothing else. -/
theorem render_of_title (node : NodeRenderer) {slot : Value} (scope : Scope) {title : Text}
    (htag : slot.hasTag .slot = true) (htitle : slot.get? "title" = some (.str title))
    (hne : title ≠ []) :
    render node slot scope = do
      let text ← render node (slot.without "title") scope
      return comment title ++ (" " ++ text) := by
  have hcontent : content node (slot.without "title") scope = content node slot scope := by
    rw [content, setField?, Value.get?_without_of_ne (by decide)]
    rfl
  rw [render_eq, render_eq, Value.hasTag_without (by decide), if_pos htag, if_pos htag, hcontent,
    bind_assoc]
  exact bind_congr fun text => dress_of_title text htitle hne

end Slot

/-- **A title stays in its comment.** Let a slot with a title be rendered. Its text starts with a
comment that shows the title, with a blank inside every `*/` of it. The first `*/` behind the
opening mark is the end of this comment, so it is what a reader of scripts skips. Behind it come a
blank and the text of the slot without its title, whose rendering leaves the same run behind. -/
theorem title_stays_in_comment (node : Slot.NodeRenderer) (slot : Value) (scope : Scope)
    (machine : Machine) (run after : Run) {title text : Text} (hne : title ≠ [])
    (htitle : slot.get? "title" = some (.str title))
    (h : (Slot.render node slot scope).perform machine run = (.ok text, after)) :
    ∃ (closing : Nat) (pieces : List Text) (bare : Text),
      Text.startsWith text "/*" = true ∧
      Text.find? "*/" 2 text = some closing ∧
      title = Text.join "*/" pieces ∧
      text.take (closing + 2) = "/* " ++ Text.join "* /" pieces ++ " */" ∧
      text.drop (closing + 2) = (' ' : CodePoint) :: bare ∧
      (Slot.render node (slot.without "title") scope).perform machine run = (.ok bare, after) ∧
      ∀ fresh, Fragment.Lexeme.blank fresh text = some (.comment, some (closing + 2)) := by
  have htag : slot.hasTag .slot = true := by
    by_contra htag
    rw [Slot.render_eq, if_neg htag] at h
    exact Gen.fail_ne_ok (congrArg Prod.fst h)
  rw [Slot.render_of_title node scope htag htitle hne] at h
  obtain ⟨bare, mid, hbare, htext⟩ := Gen.exists_of_perform_bind h
  obtain ⟨rfl, rfl⟩ : Slot.comment title ++ (" " ++ bare) = text ∧ mid = after := by
    simpa using htext
  obtain ⟨closing, hlength, hfind⟩ := Slot.find?_comment title
  obtain ⟨pieces, hpieces, hsplit⟩ := Slot.exists_pieces title
  have hcomment : Slot.comment title = "/* " ++ Text.join "* /" pieces ++ " */" := by
    rw [Slot.comment, hsplit]
  refine ⟨closing, pieces, bare, rfl, hfind _, hpieces, ?_, List.drop_left' hlength, hbare, ?_⟩
  · rw [List.take_left' hlength, hcomment]
  · exact fun fresh => Fragment.Lexeme.blank_of_find? fresh rfl (hfind _)

/-- Stars and slashes that stand together in many ways, in the title of a slot with parameters. -/
theorem title_stays_in_comment_of_stars :
    let node : Slot.NodeRenderer := NodeGenerator.component.render generate
    let title : Text := "/**//*/*"
    let slot := Value.map false [(.str "type", .str "JSSlot"), (.str "title", .str title),
      (.str "params", .list [.str "row", .str "*/"]),
      (.str "value", .list [.map true [(.str "componentName", .str "Row")]])]
    let text : Text := "/* /** //* /* */ (row, */) => ([<Row />])"
    title ≠ [] ∧ slot.get? "title" = some (.str title) ∧
      (Slot.render node slot .null).perform .standard {} = (.ok text, {}) ∧
      Text.find? "*/" 2 text = some 14 ∧
      ∃ pieces bare, title = Text.join "*/" pieces ∧
        text.take 16 = "/* " ++ Text.join "* /" pieces ++ " */" ∧
        text.drop 16 = (' ' : CodePoint) :: bare ∧
        (Slot.render node (slot.without "title") .null).perform .standard {} = (.ok bare, {}) := by
  intro node title slot text
  have hne : title ≠ [] := by decide
  have htitle : slot.get? "title" = some (.str title) := rfl
  have hrender : (Slot.render node slot .null).perform .standard {} = (.ok text, {}) := rfl
  obtain ⟨closing, pieces, bare, -, hfind, hpieces, htake, hdrop, hbare, -⟩ :=
    title_stays_in_comment node slot .null .standard {} {} hne htitle hrender
  obtain rfl : 14 = closing := by
    have hplace : Text.find? "*/" 2 text = some 14 := by decide
    exact Option.some.inj (hplace.symm.trans hfind)
  exact ⟨hne, htitle, hrender, hfind, pieces, bare, hpieces, htake, hdrop, hbare⟩

end CompositeScript
