import CompositeScript.Proofs.Nodes

/-! What counts as well formed.

Three places decide it: the classifier, which goes by the tag and the defect of a value, and the
renderings of expressions and of functions, which ask for the tags they accept before they look for
a defect. They agree (`Value.classify_eq_ok_kind_iff`, `Expression.Writes.exists_ok_iff`), and where
a rendering finds a defect, its fault is that of the classifier (`Expression.Writes.eq_error`). All
these faults show the value, so they are told only if the machine can show it. -/

namespace CompositeScript

/-! ## The classifier -/

namespace Value

/-- The value is of one of the types of composite values. -/
def inSchema : Value → Bool
  | set _ | bytes _ | range _ => false
  | _ => true

theorem subject?_of_classify {v : Value} {f : Fault} (h : v.classify = .error f) :
    f.subject? = some v := by
  obtain rfl | ⟨d, rfl⟩ := fault_of_classify h <;> rfl

theorem family?_of_classify {v : Value} {f : Fault} (h : v.classify = .error f) :
    f.family? = some .classification := by
  obtain rfl | ⟨d, rfl⟩ := fault_of_classify h <;> rfl

/-- Only maps are tagged. -/
theorem exists_map_of_tag? {v : Value} {tag : Tag} (h : v.tag? = some tag) :
    ∃ r es, v = map r es := by
  have hname : v.tagName? = some tag.name := by simpa [hasTag] using tag?_eq_some_iff.mp h
  cases v with
  | map r es => exact ⟨r, es, rfl⟩
  | _ => cases hname

theorem classify_of_defect? {v : Value} {d : Defect} (h : v.defect? = some d) :
    v.classify = .error (.malformed v d) := by
  cases htag : v.tag? with
  | none => simp [defect?, htag] at h
  | some tag =>
    obtain ⟨r, es, rfl⟩ := exists_map_of_tag? htag
    simp [classify, h]

theorem classify_eq_error_iff {v : Value} :
    (∃ f, v.classify = .error f) ↔ v.defect? ≠ none ∨ v.inSchema = false := by
  constructor
  · rintro ⟨f, h⟩
    cases v with
    | map r es =>
      refine .inl fun hdefect => ?_
      simp [classify, hdefect] at h
    | set | bytes | range => exact .inr rfl
    | _ => cases h
  · rintro (hdefect | hschema)
    · obtain ⟨d, hd⟩ := Option.ne_none_iff_exists'.mp hdefect
      exact ⟨_, classify_of_defect? hd⟩
    · cases v with
      | set | bytes | range => exact ⟨_, rfl⟩
      | _ => cases hschema

/-- A map is of the kind of its tag if it has no defect. Plain maps are of the kind of localised
texts. -/
theorem classify_eq_ok_kind_iff {v : Value} {tag : Tag} (htag : tag ≠ .i18n) :
    v.classify = .ok tag.kind ↔ v.hasTag tag = true ∧ v.defect? = none := by
  constructor
  · intro h
    cases v with
    | map r es =>
      have hdefect := defect?_of_classify h
      refine ⟨tag?_eq_some_iff.mp ?_, hdefect⟩
      have hkind : (map r es).tag?.elim .object Tag.kind = tag.kind := by
        simpa [classify, hdefect] using h
      cases hmap : (map r es).tag? with
      | none => cases tag <;> simp_all [Tag.kind]
      | some other => cases tag <;> cases other <;> simp_all [Tag.kind]
    | _ => cases tag <;> cases h
  · rintro ⟨hhas, hdefect⟩
    have hmap := tag?_eq_some_iff.mpr hhas
    obtain ⟨r, es, rfl⟩ := exists_map_of_tag? hmap
    simp [classify, hdefect, hmap]

end Value

/-! ## The renderings -/

/-- What a rendering that accepts some tags says when it gives up on a value, given the answer of
the classifier: that the value is another one, or the same as the classifier. -/
structure Refusal (accepted : Bool) (kind : Except Fault Kind) (f : Fault) : Prop where
  family : f.family? = some .codegen ∨ f.family? = some .classification
  classification_iff : f.family? = some .classification ↔ accepted = true ∧ ∃ g, kind = .error g
  same : f.family? = some .classification → kind = .error f

namespace Expression
variable {tag other : Tag} {v : Value} {r : Except Fault Text} {f : Fault}

theorem codeOf_of_defect? {d : Defect} (haccepted : (v.hasTag tag || v.hasTag other) = true)
    (hdefect : v.defect? = some d) : codeOf tag other v = .error (.malformed v d) := by
  simp only [codeOf, haccepted, hdefect, if_true]

theorem codeOf_of_not_hasTag (h : (v.hasTag tag || v.hasTag other) = false) :
    codeOf tag other v = .error (.notTagged tag v) := by
  simp only [codeOf, h, Bool.false_eq_true, if_false]

/-- The rendering gives some form to the code of a value with one of the tags. -/
def Writes (tag other : Tag) (v : Value) (r : Except Fault Text) : Prop :=
  ∃ write : Text → Text, r = (codeOf tag other v).map write

theorem writes_render (v : Value) : Writes .expression .expression v (render v) := ⟨_, rfl⟩

/-- Only the arrow form looks into the code. -/
theorem writes_render_function (parser : Fragment.Parser) {mode : Function.Mode}
    (h : mode ≠ .arrow) (v : Value) :
    Writes .function .expression v (Function.render parser mode v) := by
  cases mode with
  | plain =>
    refine ⟨id, ?_⟩
    unfold Function.render
    cases codeOf .function .expression v <;> rfl
  | bound =>
    refine ⟨fun code => "(" ++ code.strip ++ ").bind(this)", ?_⟩
    unfold Function.render
    cases codeOf .function .expression v <;> rfl
  | arrow => exact (h rfl).elim

theorem Writes.exists_ok (h : Writes tag other v r) :
    (∃ text, r = .ok text) ↔ ∃ code, codeOf tag other v = .ok code := by
  obtain ⟨write, rfl⟩ := h
  cases codeOf tag other v <;> simp [Except.map]

theorem Writes.codeOf_eq_error (h : Writes tag other v r) (hr : r = .error f) :
    codeOf tag other v = .error f := by
  obtain ⟨write, rfl⟩ := h
  cases hcode : codeOf tag other v with
  | ok code => simp [hcode, Except.map] at hr
  | error g => simpa [hcode, Except.map] using hr

section
variable (htag : tag.requiredField? = some "value") (hother : other.requiredField? = some "value")
include htag hother

/-- Without a defect, there is a code. -/
theorem exists_codeOf (haccepted : (v.hasTag tag || v.hasTag other) = true)
    (hdefect : v.defect? = none) : ∃ code, codeOf tag other v = .ok code := by
  have hcode : ∃ code, v.get? "value" = some (.str code) := by
    rcases Bool.or_eq_true_iff.mp haccepted with h | h
    · exact Value.get?_requiredField (Value.tag?_eq_some_iff.mpr h) hdefect htag
    · exact Value.get?_requiredField (Value.tag?_eq_some_iff.mpr h) hdefect hother
  obtain ⟨code, hcode⟩ := hcode
  exact ⟨code, by simp only [codeOf, haccepted, hdefect, hcode, if_true]⟩

/-- What is rendered are the values of the kinds of the tags. -/
theorem Writes.exists_ok_iff (h : Writes tag other v r) :
    (∃ text, r = .ok text) ↔ v.classify = .ok tag.kind ∨ v.classify = .ok other.kind := by
  have hne : tag ≠ .i18n ∧ other ≠ .i18n := by
    constructor <;> rintro rfl <;> contradiction
  rw [h.exists_ok, Value.classify_eq_ok_kind_iff hne.1, Value.classify_eq_ok_kind_iff hne.2,
    ← or_and_right, ← Bool.or_eq_true_iff]
  constructor
  · rintro ⟨code, hcode⟩
    cases haccepted : v.hasTag tag || v.hasTag other with
    | false => simp [codeOf_of_not_hasTag haccepted] at hcode
    | true =>
      refine ⟨rfl, Option.eq_none_iff_forall_not_mem.mpr fun d hdefect => ?_⟩
      simp [codeOf_of_defect? haccepted hdefect] at hcode
  · rintro ⟨haccepted, hdefect⟩
    exact exists_codeOf htag hother haccepted hdefect

/-- A value with one of the tags is refused with the fault of the classifier. -/
theorem Writes.eq_error (h : Writes tag other v r) (hr : r = .error f) :
    (v.hasTag tag || v.hasTag other) = true ∧ v.classify = .error f ∨
      (v.hasTag tag || v.hasTag other) = false ∧ f = .notTagged tag v := by
  have hcode := h.codeOf_eq_error hr
  cases haccepted : v.hasTag tag || v.hasTag other with
  | false => exact .inr ⟨rfl, Except.error.inj (hcode.symm.trans (codeOf_of_not_hasTag haccepted))⟩
  | true =>
    cases hdefect : v.defect? with
    | none =>
      obtain ⟨code, hok⟩ := exists_codeOf htag hother haccepted hdefect
      cases hok.symm.trans hcode
    | some d =>
      obtain rfl := Except.error.inj (hcode.symm.trans (codeOf_of_defect? haccepted hdefect))
      exact .inl ⟨rfl, Value.classify_of_defect? hdefect⟩

theorem Writes.subject? (h : Writes tag other v r) (hr : r = .error f) : f.subject? = some v := by
  obtain ⟨-, hclassify⟩ | ⟨-, rfl⟩ := h.eq_error htag hother hr
  · exact Value.subject?_of_classify hclassify
  · rfl

variable {machine : Machine} {run : Run}

theorem Writes.perform_eq_ok_iff (h : Writes tag other v r) :
    (∃ text, ((Gen.ofExcept r).perform machine run).1 = .ok text) ↔
      ((Gen.ofExcept v.classify).perform machine run).1 = .ok tag.kind ∨
        ((Gen.ofExcept v.classify).perform machine run).1 = .ok other.kind := by
  simp only [Gen.perform_ofExcept_eq_ok_iff]
  exact h.exists_ok_iff htag hother

theorem Writes.refusal (h : Writes tag other v r) (hshows : machine.Shows v)
    (hf : ((Gen.ofExcept r).perform machine run).1 = .error f) :
    Refusal (v.hasTag tag || v.hasTag other)
      ((Gen.ofExcept v.classify).perform machine run).1 f := by
  rw [Gen.perform_ofExcept_of_shows (fun _ => h.subject? htag hother) hshows] at hf
  rw [Gen.perform_ofExcept_of_shows (fun _ => Value.subject?_of_classify) hshows]
  obtain ⟨haccepted, hclassify⟩ | ⟨haccepted, rfl⟩ := h.eq_error htag hother hf
  · have hfamily := Value.family?_of_classify hclassify
    exact ⟨.inr hfamily, ⟨fun _ => ⟨haccepted, f, hclassify⟩, fun _ => hfamily⟩, fun _ => hclassify⟩
  · exact ⟨.inl rfl, by simp [Fault.family?, haccepted], by simp [Fault.family?]⟩

theorem Writes.exceeded (h : Writes tag other v r) (hshows : ¬machine.Shows v)
    (hf : ((Gen.ofExcept r).perform machine run).1 = .error f) : machine.Exceeded v f :=
  Gen.exceeded_of_error (fun _ => h.subject? htag hother) hshows hf

end

end Expression

/-- **The classifier, the tags and the renderings agree on what is well formed.** A value has one
tag at most. The classifier refuses it just if it has a defect or is no composite value, and finds
the kind of a tag just if it has the tag and no defect. An expression is rendered just if it is
classified as one, and a function, as it is written or bound, just if it is classified as a function
or an expression. If the machine can show the value, each of them gives up with a fault of its own
only, and a rendering that accepts the tag of the value gives up with the fault of the classifier.
If it cannot, they give up with the limit that keeps it from doing so. -/
theorem well_formedness_agrees (x : Value) (scope : Scope) (machine : Machine) (run : Run) :
    let kind := ((Gen.ofExcept x.classify).perform machine run).1
    let expression := ((Expression.emit .standard x scope).perform machine run).1
    let function mode := ((Function.emitMode .standard mode x).perform machine run).1
    (∀ tag tag' : Tag, x.hasTag tag = true → x.hasTag tag' = true → tag = tag') ∧
    ((∃ f, kind = .error f) ↔ x.defect? ≠ none ∨ x.inSchema = false) ∧
    (∀ tag : Tag, tag ≠ .i18n →
      (kind = .ok tag.kind ↔ x.hasTag tag = true ∧ x.defect? = none)) ∧
    ((∃ text, expression = .ok text) ↔ kind = .ok .expression) ∧
    (∀ mode, mode ≠ .arrow →
      ((∃ text, function mode = .ok text) ↔ kind = .ok .function ∨ kind = .ok .expression)) ∧
    (machine.Shows x →
      (∀ f, kind = .error f → f.family? = some .classification) ∧
      (∀ f, expression = .error f → Refusal (x.hasTag .expression) kind f) ∧
      ∀ mode, mode ≠ .arrow → ∀ f, function mode = .error f →
        Refusal (x.hasTag .function || x.hasTag .expression) kind f) ∧
    (¬machine.Shows x → ∀ f,
      (kind = .error f → machine.Exceeded x f) ∧ (expression = .error f → machine.Exceeded x f) ∧
      ∀ mode, mode ≠ .arrow → function mode = .error f → machine.Exceeded x f) := by
  intro kind expression function
  have hexpression := Expression.writes_render x
  have hfunction (mode : Function.Mode) (hmode : mode ≠ .arrow) :=
    Expression.writes_render_function machine.parser hmode x
  refine ⟨?_, ?_, ?_, ?_, ?_, ?_, ?_⟩
  · intro tag tag' h h'
    rw [← Value.tag?_eq_some_iff] at h h'
    exact Option.some.inj (h.symm.trans h')
  · rw [← Value.classify_eq_error_iff]
    simp [kind, Gen.perform_ofExcept_eq_error_iff]
  · intro tag htag
    exact Gen.perform_ofExcept_eq_ok_iff.trans (Value.classify_eq_ok_kind_iff htag)
  · exact (hexpression.perform_eq_ok_iff rfl rfl).trans or_self_iff
  · intro mode hmode
    exact (hfunction mode hmode).perform_eq_ok_iff rfl rfl
  · intro hshows
    have hkind : kind = x.classify :=
      Gen.perform_ofExcept_of_shows (fun _ => Value.subject?_of_classify) hshows
    refine ⟨fun f hf => ?_, fun f hf => ?_, fun mode hmode f hf => ?_⟩
    · exact Value.family?_of_classify (hkind.symm.trans hf)
    · rw [← Bool.or_self (x.hasTag .expression)]
      exact hexpression.refusal rfl rfl hshows hf
    · exact (hfunction mode hmode).refusal rfl rfl hshows hf
  · intro hshows f
    exact ⟨Gen.exceeded_of_error (fun _ => Value.subject?_of_classify) hshows,
      hexpression.exceeded rfl rfl hshows, fun mode hmode =>
        (hfunction mode hmode).exceeded rfl rfl hshows⟩

/-- A code that is no text makes both refuse an expression, in the same words. -/
theorem well_formedness_agrees_on_number :
    let x := Value.tagged .expression "value" (.int 1)
    let kind := ((Gen.ofExcept x.classify).perform .standard {}).1
    let f := Fault.malformed x (.notText .expression "value")
    (Machine.standard.Shows x ∧ x.defect? ≠ none ∧ x.hasTag .expression = true) ∧
      kind = .error f ∧ ((Expression.emit .standard x .null).perform .standard {}).1 = .error f ∧
      Refusal (x.hasTag .expression) kind f := by
  intro x kind f
  have hshows : Machine.standard.Shows x := by decide
  have hemit : ((Expression.emit .standard x .null).perform .standard {}).1 = .error f := rfl
  obtain ⟨-, -, -, -, -, htold, -⟩ := well_formedness_agrees x .null .standard {}
  exact ⟨⟨hshows, by decide, by decide⟩, rfl, hemit, (htold hshows).2.1 f hemit⟩

/-- A defect in a value that cannot be shown is not told. -/
theorem perform_unshown_code {x : Value} {d : Defect} {obstacle : Fault}
    (htag : x.hasTag .expression = true) (hdefect : x.defect? = some d)
    (h : Machine.standard.obstacle? x = some obstacle) :
    ((Gen.ofExcept x.classify).perform .standard {}).1 = .error obstacle ∧
      ((Expression.emit .standard x .null).perform .standard {}).1 = .error obstacle := by
  have hrender : Expression.render x = .error (.malformed x d) := by
    rw [Expression.render, Expression.codeOf_of_defect? (by rw [htag]; rfl) hdefect]
    rfl
  simp [Expression.emit, hrender, Value.classify_of_defect? hdefect, Gen.ofExcept,
    Gen.perform_fail_eq, Fault.told, Fault.subject?, h]

theorem perform_deep_code {w : Value} (hw : Machine.standard.nesting < w.nesting) :
    let x := Value.tagged .expression "value" (.list [w])
    (x.hasTag .expression = true ∧ x.defect? ≠ none ∧ Fault.tooDeep.family? = none) ∧
      ((Gen.ofExcept x.classify).perform .standard {}).1 = .error .tooDeep ∧
      ((Expression.emit .standard x .null).perform .standard {}).1 = .error .tooDeep := by
  intro x
  have hdefect : x.defect? = some (.notText .expression "value") := rfl
  have hnesting : Machine.standard.nesting < x.nesting := by
    simp only [x, Value.tagged, Value.nesting, Value.entryNestings, Value.nestings]
    omega
  exact ⟨⟨rfl, by simp [hdefect], rfl⟩,
    perform_unshown_code rfl hdefect (Machine.obstacle?_of_nesting hnesting)⟩

theorem perform_long_code {i : Int} (hi : 10 ^ Text.maxDigits ≤ i.natAbs) :
    let x := Value.tagged .expression "value" (.int i)
    (x.hasTag .expression = true ∧ x.defect? ≠ none ∧ Fault.tooLong.family? = none) ∧
      ((Gen.ofExcept x.classify).perform .standard {}).1 = .error .tooLong ∧
      ((Expression.emit .standard x .null).perform .standard {}).1 = .error .tooLong := by
  intro x
  have hdefect : x.defect? = some (.notText .expression "value") := rfl
  have hnesting : x.nesting ≤ Machine.standard.nesting := by
    simp [x, Value.tagged, Value.nesting, Value.entryNestings, Machine.standard]
  have hdigits : Machine.standard.digits < x.digits := by
    have hlong : Machine.standard.digits < (Value.int i).digits :=
      Value.lt_digits_int (n := Text.maxDigits) (by decide) hi
    simp only [x, Value.tagged, Value.digits, Value.entryDigits] at hlong ⊢
    omega
  exact ⟨⟨rfl, by simp [hdefect], rfl⟩,
    perform_unshown_code rfl hdefect (Machine.obstacle?_of_digits hnesting hdigits)⟩

/-- The value nests too deeply to be shown, or its code is an integer that is too long for it. -/
theorem well_formedness_is_not_told :
    let deep := Value.tagged .expression "value" ((fun w => Value.list [w])^[3000] .null)
    let long := Value.tagged .expression "value" (.int (10 ^ Text.maxDigits : Nat))
    ((deep.hasTag .expression = true ∧ deep.defect? ≠ none ∧ Fault.tooDeep.family? = none) ∧
      ((Gen.ofExcept deep.classify).perform .standard {}).1 = .error .tooDeep ∧
      ((Expression.emit .standard deep .null).perform .standard {}).1 = .error .tooDeep) ∧
    ((long.hasTag .expression = true ∧ long.defect? ≠ none ∧ Fault.tooLong.family? = none) ∧
      ((Gen.ofExcept long.classify).perform .standard {}).1 = .error .tooLong ∧
      ((Expression.emit .standard long .null).perform .standard {}).1 = .error .tooLong) := by
  rw [Function.iterate_succ_apply' _ 2999]
  refine ⟨perform_deep_code ?_, perform_long_code (le_refl _)⟩
  rw [Value.nesting_iterate_list]
  decide

end CompositeScript
