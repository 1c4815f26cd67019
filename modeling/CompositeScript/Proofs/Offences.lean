import CompositeScript.Proofs.Nodes
import CompositeScript.Proofs.Quiet

/-! What generation without hooks answers, read off the nodes of the value.

A node offends if generation cannot get past it. A step `Visits` a list of nodes if it fails with
the first offence among them and warns of every slot it skips before that; the rules for `Visits`
follow the way steps are put together. Generation visits the nodes of its value
(`generateWithin_visits`), so it answers a text exactly if no node offends, and otherwise the
offence of the first node that does (`first_offence_decides`). -/

namespace CompositeScript

/-! ## Offences -/

namespace Value

/-- The code of the value has to be read to be rendered, and has no UTF-8 form. -/
def hasUnreadableCode (v : Value) : Bool :=
  match v.get? "value" with
  | some (str code) => !Fragment.isForward code && code.hasSurrogate
  | _ => false

/-- The value is a static `i18n` object, and its payload has no JSON text. -/
def hasUnwritablePayload (v : Value) : Bool :=
  v.hasTag .i18n && v.entries?.any fun es =>
    !isDynamic es && (Json.render (map false (Collection.payload es))).isOk.not

end Value

/-- Why generation cannot get past a node, if it cannot. -/
def Node.offence? (o : Options) (node : Node) : Option Fault :=
  if o.maxDepth < node.level then some (.depthExceeded o.maxDepth)
  else
    match node.value.classify with
    | .error f => some f
    | .ok .slot => if o.policy = "fail" then some .noNodeGenerator else none
    | .ok .function => if node.value.hasUnreadableCode then some .notEncodable else none
    | .ok .object => if node.value.hasUnwritablePayload then some .wrongType else none
    | .ok _ => none

/-- What is said of the slots that are skipped before the first offence. -/
def Options.skips (o : Options) (nodes : List Node) : List Text :=
  ((nodes.takeWhile fun node => (node.offence? o).isNone).filter fun node =>
    node.value.hasTag .slot).map fun _ => Slot.skipWarning

/-- The options have no hooks and no node generator, and the collaborators are those that are there
unless others are given. -/
structure Options.Plain (o : Options) : Prop where
  hookless : o.Hookless
  nodes : o.nodes = none
  expressions : o.expressions = .standard
  functions : o.functions = .standard
  nameFinder : o.nameFinder = .scan

section
variable {o : Options} {node : Node} {nodes nodes' : List Node}

theorem Options.skips_append (h : nodes.findSome? (Node.offence? o) = none) :
    o.skips (nodes ++ nodes') = o.skips nodes ++ o.skips nodes' := by
  have hnone : ∀ node ∈ nodes, (node.offence? o).isNone = true := fun node hnode =>
    Option.isNone_iff_eq_none.mpr (List.findSome?_eq_none_iff.mp h node hnode)
  simp [skips, List.takeWhile_append_of_pos hnone, List.takeWhile_eq_self_iff.mpr hnone]

theorem Options.skips_append_of_offence {f : Fault}
    (h : nodes.findSome? (Node.offence? o) = some f) :
    o.skips (nodes ++ nodes') = o.skips nodes := by
  induction nodes with
  | nil => simp at h
  | cons node nodes ih =>
    cases hnode : node.offence? o with
    | some f => simp [skips, hnode]
    | none =>
      have := ih (by simpa [hnode] using h)
      simp only [skips] at this
      by_cases hslot : node.value.hasTag .slot = true <;> simp [skips, hnode, hslot, this]

end

/-! ## Visits -/

namespace Gen

variable {α β : Type} {o : Options} {machine : Machine} {d : Nat} {node : Node}
  {nodes nodes' : List Node}

/-- With so many calls open, the step fails with the first offence among the nodes, or answers if
there is none, and warns of the slots before. -/
def Visits (o : Options) (machine : Machine) (d : Nat) (x : Gen α) (nodes : List Node) : Prop :=
  ∀ run : Run, run.depth = d → ∃ answer,
    x.perform machine run = (answer, { run with warnings := run.warnings ++ o.skips nodes }) ∧
    fault? answer = nodes.findSome? (Node.offence? o)

namespace Visits

theorem of_answer {x : Gen α} {a : α}
    (h : ∀ run : Run, run.depth = d → x.perform machine run = (.ok a, run)) :
    Visits o machine d x [] := by
  intro run hrun
  exact ⟨.ok a, by simpa [Options.skips] using h run hrun, rfl⟩

theorem of_offence {x : Gen α} {f : Fault} (hnode : node.offence? o = some f)
    (h : ∀ run : Run, run.depth = d → x.perform machine run = (.error f, run)) :
    Visits o machine d x (node :: nodes) := by
  intro run hrun
  exact ⟨.error f, by simpa [Options.skips, hnode] using h run hrun, by simp [fault?, hnode]⟩

/-- A node that neither offends nor is a slot is passed without a trace. -/
theorem cons {x : Gen α} (hnode : node.offence? o = none)
    (hslot : node.value.hasTag .slot = false) (h : Visits o machine d x nodes) :
    Visits o machine d x (node :: nodes) := by
  intro run hrun
  obtain ⟨answer, hanswer, hfault⟩ := h run hrun
  refine ⟨answer, ?_, by simpa [hnode] using hfault⟩
  simpa [Options.skips, hnode, hslot] using hanswer

theorem bind {x : Gen α} {k : α → Gen β} (hx : Visits o machine d x nodes)
    (hk : ∀ a, Visits o machine d (k a) nodes') :
    Visits o machine d (x >>= k) (nodes ++ nodes') := by
  intro run hrun
  obtain ⟨answer, hanswer, hfault⟩ := hx run hrun
  cases answer with
  | error f =>
    refine ⟨.error f, ?_, ?_⟩
    · rw [perform_bind_error hanswer, Options.skips_append_of_offence hfault.symm]
    · rw [List.findSome?_append, ← hfault]
      rfl
  | ok a =>
    obtain ⟨answer', hanswer', hfault'⟩ :=
      hk a { run with warnings := run.warnings ++ o.skips nodes } hrun
    refine ⟨answer', ?_, ?_⟩
    · rw [perform_bind_ok hanswer, hanswer', Options.skips_append hfault.symm]
      simp
    · rw [List.findSome?_append, ← hfault, hfault']
      rfl

/-- What is done with the answer of a step adds nothing to what it visits. -/
theorem map {x : Gen α} (hx : Visits o machine d x nodes) (k : α → β) :
    Visits o machine d (x >>= fun a => pure (k a)) nodes := by
  have := hx.bind fun a => of_answer (x := pure (k a)) fun run _ => perform_pure (k a)
  simpa using this

theorem mapM {f : α → Gen β} {g : α → List Node} {as : List α}
    (h : ∀ a ∈ as, Visits o machine d (f a) (g a)) :
    Visits o machine d (as.mapM f) (as.flatMap g) := by
  induction as with
  | nil => exact of_answer fun run _ => perform_pure []
  | cons a as ih =>
    obtain ⟨ha, has⟩ := List.forall_mem_cons.mp h
    rw [List.mapM_cons, List.flatMap_cons]
    exact ha.bind fun b => (ih has).map fun bs => b :: bs

theorem nested {x : Gen α} (hd : d + 1 ≤ o.maxDepth) (hx : Visits o machine (d + 1) x nodes)
    (hnodes : ∀ node ∈ nodes, node.offence? o ≠ some .tooDeep) :
    Visits o machine d (Gen.nested o.maxDepth x) nodes := by
  intro run hrun
  obtain ⟨answer, hanswer, hfault⟩ := hx { run with depth := run.depth + 1 } (by simp [hrun])
  refine ⟨answer, ?_, hfault⟩
  rw [perform_nested_of_le (by omega) hanswer]
  rintro rfl
  obtain ⟨node, hnode, hoffence⟩ := List.exists_of_findSome?_eq_some hfault.symm
  exact hnodes node hnode hoffence

end Visits

end Gen

theorem Node.offence?_ne_tooDeep (o : Options) (node : Node) :
    node.offence? o ≠ some .tooDeep := by
  unfold offence?
  split
  · simp
  · split
    · next f h =>
      rcases Value.fault_of_classify h with rfl | ⟨d, rfl⟩ <;> simp
    all_goals simp

/-! ## Functions -/

theorem CodePoint.isSurrogate_of_isBlank {c : CodePoint} (h : c.isBlank = true) :
    c.isSurrogate = false := by
  simp only [isBlank, within, blankRanges, List.any_cons, List.any_nil, Bool.or_false,
    Bool.or_eq_true, Bool.and_eq_true, decide_eq_true_eq] at h
  simp only [isSurrogate, Bool.and_eq_false_iff, decide_eq_false_iff_not]
  omega

theorem Text.isBlank_of_hasSurrogate {t : Text} (h : t.hasSurrogate = true) :
    t.isBlank = false := by
  obtain ⟨c, hc, hsurrogate⟩ := List.any_eq_true.mp h
  refine List.all_eq_false.mpr ⟨c, hc, fun hblank => ?_⟩
  rw [CodePoint.isSurrogate_of_isBlank hblank] at hsurrogate
  cases hsurrogate

theorem codeOf_of_tag {v : Value} {tag other : Tag} {code : Text} (htag : v.tag? = some tag)
    (hdefect : v.defect? = none) (hcode : v.get? "value" = some (.str code)) :
    Expression.codeOf tag other v = .ok code := by
  simp [Expression.codeOf, Value.tag?_eq_some_iff.mp htag, hdefect, hcode]

section
variable {o : Options} {v : Value} {code : Text} {machine : Machine} {run : Run}

theorem shapeOf_scan (parser : Fragment.Parser) (hunreadable : v.hasUnreadableCode = false)
    (hcode : v.get? "value" = some (.str code)) :
    ∃ shape, Function.shapeOf parser .scan code = .ok shape ∧
      (shape = .arrow → code.hasSurrogate = false) := by
  simp only [Value.hasUnreadableCode, hcode, Bool.and_eq_false_iff,
    Bool.not_eq_false'] at hunreadable
  by_cases hforward : Fragment.isForward code = true
  · exact ⟨.forward, by simp [Function.shapeOf, hforward], by simp⟩
  · have hsurrogate : code.hasSurrogate = false := hunreadable.resolve_left hforward
    have hnames : ∃ names, Fragment.freeNames parser code = .ok names := by
      unfold Fragment.freeNames
      split
      · exact ⟨[], rfl⟩
      · exact ⟨_, by simp [Fragment.readWrapped, hsurrogate, Except.map]; rfl⟩
    obtain ⟨names, hnames⟩ := hnames
    refine ⟨if names.contains "arguments" then .bound else .arrow, ?_, fun _ => hsurrogate⟩
    simp [Function.shapeOf, hforward, NameFinder.find, hnames, Except.map]

theorem shapeOf_scan_of_unreadable (parser : Fragment.Parser)
    (hunreadable : v.hasUnreadableCode = true) (hcode : v.get? "value" = some (.str code)) :
    Function.shapeOf parser .scan code = .error .notEncodable := by
  simp only [Value.hasUnreadableCode, hcode, Bool.and_eq_true, Bool.not_eq_true'] at hunreadable
  obtain ⟨hforward, hsurrogate⟩ := hunreadable
  simp [Function.shapeOf, hforward, NameFinder.find, Fragment.freeNames,
    Text.isBlank_of_hasSurrogate hsurrogate, Fragment.readWrapped, hsurrogate, Except.map]

theorem codeField_of_get? (hcode : v.get? "value" = some (.str code)) :
    Function.codeField v = pure code := by
  simp [Function.codeField, Gen.field_of_get? hcode]

theorem perform_emitMode (mode : Function.Mode) :
    (Function.emitMode .standard mode v).perform machine run =
      (Gen.ofExcept (Function.render machine.parser mode v)).perform machine run :=
  Gen.perform_bind_ok Gen.perform_read

theorem perform_emitShape {shape : Function.Shape} (htag : v.tag? = some .function)
    (hdefect : v.defect? = none) (hcode : v.get? "value" = some (.str code))
    (harrow : shape = .arrow → code.hasSurrogate = false) :
    ∃ text, ∀ run,
      (Function.emitShape .standard shape v).perform machine run = (.ok text, run) := by
  cases shape with
  | forward =>
    refine ⟨Fragment.forwardArrow code, fun run => ?_⟩
    simp only [Function.emitShape, codeField_of_get? hcode, pure_bind, perform_emitMode]
    rfl
  | bound =>
    refine ⟨"(" ++ code.strip ++ ").bind(this)", fun run => ?_⟩
    simp [Function.emitShape, perform_emitMode, Function.render,
      codeOf_of_tag htag hdefect hcode, Gen.ofExcept]
  | arrow =>
    have hstrip := Text.strip_hasSurrogate (harrow rfl)
    exact ⟨_, fun run => by
      simp [Function.emitShape, perform_emitMode, Function.render, Fragment.toArrow,
        codeOf_of_tag htag hdefect hcode, Fragment.readWrapped, hstrip, Except.map, Gen.ofExcept]
      rfl⟩

theorem perform_emit_function (ho : o.Plain) (hdefect : v.defect? = none)
    (hcode : v.get? "value" = some (.str code)) :
    (Function.emit o v).perform machine run =
      (Gen.ofExcept (Function.shapeOf machine.parser .scan code) >>= fun shape =>
        Function.emitShape .standard shape v).perform machine run := by
  simp only [Function.emit, hdefect, codeField_of_get? hcode, pure_bind, ho.nameFinder,
    ho.functions]
  exact Gen.perform_bind_ok Gen.perform_read

/-- A function is rendered unless its code cannot be read. -/
theorem emit_function (ho : o.Plain) (htag : v.tag? = some .function) (hdefect : v.defect? = none)
    (hreadable : v.hasUnreadableCode = false) :
    ∃ text, ∀ run, (Function.emit o v).perform machine run = (.ok text, run) := by
  obtain ⟨code, hcode⟩ := Value.get?_requiredField htag hdefect rfl
  obtain ⟨shape, hshape, harrow⟩ := shapeOf_scan machine.parser hreadable hcode
  obtain ⟨text, htext⟩ := @perform_emitShape v code machine shape htag hdefect hcode harrow
  refine ⟨text, fun run => ?_⟩
  rw [perform_emit_function ho hdefect hcode, hshape, Gen.ofExcept, pure_bind, htext]

theorem emit_function_of_unreadable (ho : o.Plain) (htag : v.tag? = some .function)
    (hdefect : v.defect? = none) (hunreadable : v.hasUnreadableCode = true) :
    (Function.emit o v).perform machine run = (.error .notEncodable, run) := by
  obtain ⟨code, hcode⟩ := Value.get?_requiredField htag hdefect rfl
  rw [perform_emit_function ho hdefect hcode,
    shapeOf_scan_of_unreadable machine.parser hunreadable hcode, Gen.ofExcept, Gen.fail_bind]
  exact Gen.perform_fail (by simp [Fault.subject?])

end

/-! ## Collections -/

section
variable {g : Emitter} {scope : Scope} {o : Options} {machine : Machine} {d : Nat} {r : Bool}
  {es : Entries}

theorem array_visits (v : Value) {xs : List Value} (hv : v.elements? = some xs)
    (h : ∀ x ∈ xs, (g x scope o).Visits o machine d (x.nodes (d + 1))) :
    (Collection.array g v scope o).Visits o machine d (xs.flatMap (Value.nodes (d + 1))) := by
  simp only [Collection.array, hv]
  exact (Gen.Visits.mapM h).map _

theorem member_visits {e : Value × Value} {nodes : List Node}
    (hkey : machine.Shows e.1) (h : (g e.2 scope o).Visits o machine d nodes) :
    (Collection.member g scope o e).Visits o machine d nodes := by
  have hshown : (Gen.shown e.1).Visits o machine d [] :=
    .of_answer fun run _ => Gen.perform_walk hkey
  exact hshown.bind fun key => h.map fun value => Literal.string key ++ ": " ++ value

theorem object_visits (htag : (Value.map r es).tag? = none)
    (hkeys : ∀ e ∈ es, machine.Shows e.1)
    (h : ∀ e ∈ es, (g e.2 scope o).Visits o machine d (e.2.nodes (d + 1))) :
    (Collection.object g (.map r es) scope o).Visits o machine d
      ((es.map Prod.snd).flatMap (Value.nodes (d + 1))) := by
  have hi18n : (Value.map r es).hasTag .i18n = false := Value.hasTag_eq_false (by simp [htag])
  have hmembers := Gen.Visits.mapM fun e he => member_visits (hkeys e he) (h e he)
  simp only [Collection.object, hi18n, Value.entries?, Bool.false_eq_true, if_false,
    List.flatMap_map]
  exact hmembers.map _

theorem i18n_visits {nodes : List Node} (htag : (Value.map r es).tag? = some .i18n)
    (hdynamic : Value.isDynamic es = true)
    (h : (g (.map false (Collection.payload es)) scope o).Visits o machine d nodes) :
    (Collection.object g (.map r es) scope o).Visits o machine d nodes := by
  rw [Value.isDynamic] at hdynamic
  simp only [Collection.object, Collection.i18n, Value.tag?_eq_some_iff.mp htag, Value.entries?,
    if_true, hdynamic]
  exact h.map _

theorem static_i18n_visits {level : Nat} (hlevel : level ≤ o.maxDepth)
    (hclassify : (Value.map r es).classify = .ok .object)
    (htag : (Value.map r es).tag? = some .i18n) (hstatic : Value.isDynamic es = false)
    (hl : machine.Shows (.map r es)) :
    (Collection.object g (.map r es) scope o).Visits o machine d [⟨level, .map r es⟩] := by
  have hi18n := Value.tag?_eq_some_iff.mp htag
  have hjson (run : Run) :
      (Collection.json (.map false (Collection.payload es))).perform machine run =
        (Gen.ofExcept (Json.render (.map false (Collection.payload es)))).perform machine run :=
    Gen.perform_walk (hl.filter false _)
  have hobject : Collection.object g (.map r es) scope o =
      Collection.json (.map false (Collection.payload es)) >>= fun argument =>
        pure ("this._i18nText(" ++ argument ++ ")") := by
    rw [Value.isDynamic] at hstatic
    simp [Collection.object, Collection.i18n, hi18n, Value.entries?, hstatic]
  have hoffence : (Node.mk level (.map r es)).offence? o =
      if (Json.render (.map false (Collection.payload es))).isOk then none
      else some .wrongType := by
    simp only [Node.offence?, if_neg (not_lt.mpr hlevel), hclassify, Value.hasUnwritablePayload,
      hi18n, hstatic, Value.entries?, Option.any_some, Bool.not_false, Bool.true_and]
    cases (Json.render (.map false (Collection.payload es))).isOk <;> rfl
  rw [hobject]
  cases hrender : Json.render (.map false (Collection.payload es)) with
  | ok t =>
    rw [hrender] at hjson hoffence
    refine .cons hoffence (Value.hasTag_eq_false (by simp [htag])) (.map (.of_answer (a := t) ?_) _)
    exact fun run _ => hjson run
  | error f =>
    obtain rfl := Json.fault_of_write hrender
    rw [hrender] at hjson hoffence
    refine .of_offence hoffence fun run _ => ?_
    refine Gen.perform_bind_error ((hjson run).trans (Gen.perform_fail ?_))
    simp [Fault.subject?]

/-! ## Generation -/

theorem slot_visits {v : Value} {node : Node} (ho : o.Plain)
    (hslot : node.value.hasTag .slot = true)
    (hnode : node.offence? o = if o.policy = "fail" then some .noNodeGenerator else none) :
    (Slot.emit g v scope o).Visits o machine d [node] := by
  by_cases hpolicy : o.policy = "fail"
  · refine .of_offence (by rw [hnode, if_pos hpolicy]) fun run _ => ?_
    rw [perform_slot g v scope ho.nodes, if_pos hpolicy]
  · rw [if_neg hpolicy] at hnode
    intro run _
    refine ⟨.ok [], ?_, by simp [Gen.fault?, hnode]⟩
    rw [perform_slot g v scope ho.nodes, if_neg hpolicy]
    simp [Options.skips, hnode, hslot]

theorem expression_visits {v w : Value} {kind : Kind} {code : Text} (ho : o.Plain)
    (hclassify : v.classify = .ok kind) (hdesugar : desugar kind v = (.expression, w))
    (hw : Expression.codeOf .expression .expression w = .ok code) :
    (route g v scope o).Visits o machine d [] := by
  refine .of_answer (a := if code.strip.isEmpty then "null" else code.strip) fun run _ => ?_
  rw [route_of_classify hclassify, hdesugar, dispatch_of_hookless ho.hookless]
  simp [Kind.emit, ho.expressions, Expression.emit, Expression.render, hw, Except.map,
    Gen.ofExcept]

theorem object_route_visits (ho : o.Plain) (hd : d ≤ o.maxDepth)
    (hl : machine.Shows (.map r es)) (htag : (Value.map r es).tag? = none)
    (h : ∀ child ∈ (Value.map r es).children,
      (g child scope o).Visits o machine d (child.nodes (d + 1))) :
    (route g (.map r es) scope o).Visits o machine d ((Value.map r es).nodes d) := by
  have hclassify := Value.classify_of_untagged htag
  have hi18n : (Value.map r es).hasTag .i18n = false := Value.hasTag_eq_false (by simp [htag])
  have hchildren : (Value.map r es).children = es.map Prod.snd := by simp [Value.children, htag]
  rw [hchildren] at h
  rw [route_of_hookless ho.hookless hclassify (by simp) (by simp), Value.nodes_eq, hchildren]
  refine .cons ?_ (Value.hasTag_eq_false (by simp [htag])) (object_visits htag ?_ ?_)
  · simp [Node.offence?, hd, hclassify, Value.hasUnwritablePayload, hi18n]
  · exact fun e he => (hl.entry he).1
  · exact fun e he => h e.2 (List.mem_map_of_mem he)

theorem i18n_route_visits (ho : o.Plain) (hd : d ≤ o.maxDepth)
    (hl : machine.Shows (.map r es))
    (htag : (Value.map r es).tag? = some .i18n)
    (h : ∀ child ∈ (Value.map r es).children,
      (g child scope o).Visits o machine d (child.nodes (d + 1))) :
    (route g (.map r es) scope o).Visits o machine d ((Value.map r es).nodes d) := by
  have hclassify := Value.classify_of_i18n htag
  have hslot : (Value.map r es).hasTag .slot = false := Value.hasTag_eq_false (by simp [htag])
  rw [route_of_hookless ho.hookless hclassify (by simp) (by simp), Value.nodes_eq]
  by_cases hdynamic : Value.isDynamic es = true
  · have hchildren : (Value.map r es).children = [.map false (Collection.payload es)] := by
      simp [Value.children, htag, hdynamic]
    rw [hchildren, List.flatMap_singleton]
    refine .cons ?_ hslot (i18n_visits htag hdynamic (h _ (by simp [hchildren])))
    simp [Node.offence?, hd, hclassify, Value.hasUnwritablePayload, Value.entries?, hdynamic]
  · have hchildren : (Value.map r es).children = [] := by simp [Value.children, htag, hdynamic]
    rw [hchildren, List.flatMap_nil]
    exact static_i18n_visits hd hclassify htag (by simpa using hdynamic) hl

theorem tagged_route_visits {tag : Tag} (ho : o.Plain) (hd : d ≤ o.maxDepth)
    (htag : (Value.map r es).tag? = some tag) (hdefect : (Value.map r es).defect? = none)
    (hi18n : tag ≠ .i18n) :
    (route g (.map r es) scope o).Visits o machine d [⟨d, .map r es⟩] := by
  have hd := not_lt.mpr hd
  have hclassify : (Value.map r es).classify = .ok tag.kind := by
    simp [Value.classify, hdefect, htag]
  have hslot (hne : tag ≠ .slot) : (Value.map r es).hasTag .slot = false :=
    Value.hasTag_eq_false (by simpa [htag] using hne)
  cases tag with
  | expression =>
    obtain ⟨code, hcode⟩ := Value.get?_requiredField htag hdefect rfl
    have hdesugar : desugar .expression (.map r es) = (.expression, .map r es) :=
      desugar_of_ne (by simp) (by simp)
    have hcode : Expression.codeOf .expression .expression (.map r es) = .ok code :=
      codeOf_of_tag htag hdefect hcode
    refine .cons ?_ (hslot (by simp)) (expression_visits ho hclassify hdesugar hcode)
    simp [Node.offence?, hd, hclassify, Tag.kind]
  | variableRef =>
    obtain ⟨code, hcode⟩ := Value.get?_requiredField htag hdefect rfl
    have hdesugar : desugar .variableRef (.map r es) =
        (.expression, Expression.ofCode (.str code)) := by
      simp [desugar, hcode]
    refine .cons ?_ (hslot (by simp)) (expression_visits ho hclassify hdesugar rfl)
    simp [Node.offence?, hd, hclassify, Tag.kind]
  | dataSource =>
    obtain ⟨id, hid⟩ := Value.get?_requiredField htag hdefect rfl
    have hdesugar : desugar .dataSource (.map r es) =
        (.expression, Expression.ofCode (.str (dataSourceCode id))) := by
      simp [desugar, hid]
    refine .cons ?_ (hslot (by simp)) (expression_visits ho hclassify hdesugar rfl)
    simp [Node.offence?, hd, hclassify, Tag.kind]
  | function =>
    rw [route_of_hookless ho.hookless hclassify (by simp [Tag.kind]) (by simp [Tag.kind])]
    by_cases hcode : (Value.map r es).hasUnreadableCode = true
    · refine .of_offence (f := .notEncodable) ?_ fun run _ => ?_
      · simp [Node.offence?, hd, hclassify, Tag.kind, hcode]
      · exact emit_function_of_unreadable ho htag hdefect hcode
    · have hcode := eq_false_of_ne_true hcode
      obtain ⟨text, htext⟩ := @emit_function o _ machine ho htag hdefect hcode
      refine .cons ?_ (hslot (by simp)) (.of_answer fun run _ => htext run)
      simp [Node.offence?, hd, hclassify, Tag.kind, hcode]
  | slot =>
    rw [route_of_hookless ho.hookless hclassify (by simp [Tag.kind]) (by simp [Tag.kind])]
    refine slot_visits ho (Value.tag?_eq_some_iff.mp htag) ?_
    simp [Node.offence?, hd, hclassify, Tag.kind]
  | i18n => exact (hi18n rfl).elim

/-- Without hooks, a value is routed past itself and its children, if the generator does so with
them. -/
theorem route_visits {v : Value} (ho : o.Plain) (hd : d ≤ o.maxDepth)
    (hl : machine.Shows v)
    (h : ∀ child ∈ v.children, (g child scope o).Visits o machine d (child.nodes (d + 1))) :
    (route g v scope o).Visits o machine d (v.nodes d) := by
  cases hclassify : v.classify with
  | error f =>
    rw [Value.nodes_eq]
    refine .of_offence (f := f) ?_ fun run _ => ?_
    · simp [Node.offence?, not_lt.mpr hd, hclassify]
    · have hsubject : ∀ w ∈ f.subject?, machine.Shows w := by
        rcases Value.fault_of_classify hclassify with rfl | ⟨defect, rfl⟩ <;>
          simpa [Fault.subject?] using hl
      simp only [route, hclassify, Gen.ofExcept, Gen.fail_bind]
      exact Gen.perform_fail hsubject
  | ok kind =>
    cases v with
    | undefined | null | bool | float | str =>
      obtain rfl := Except.ok.inj hclassify
      rw [route_of_hookless ho.hookless hclassify (by simp) (by simp), Value.nodes_eq]
      refine .cons ?_ rfl (.of_answer fun run _ => rfl)
      simp [Node.offence?, not_lt.mpr hd, hclassify]
    | int i =>
      obtain rfl := Except.ok.inj hclassify
      rw [route_of_hookless ho.hookless hclassify (by simp) (by simp), Value.nodes_eq]
      refine .cons ?_ rfl (.of_answer fun run _ => Gen.perform_walk hl)
      simp [Node.offence?, not_lt.mpr hd, hclassify]
    | list | tuple =>
      obtain rfl := Except.ok.inj hclassify
      rw [route_of_hookless ho.hookless hclassify (by simp) (by simp), Kind.emit, Value.nodes_eq]
      refine .cons ?_ rfl (array_visits _ rfl h)
      simp [Node.offence?, not_lt.mpr hd, hclassify]
    | map r es =>
      have hdefect := Value.defect?_of_classify hclassify
      cases htag : (Value.map r es).tag? with
      | none => exact object_route_visits ho hd hl htag h
      | some tag =>
        by_cases hi18n : tag = .i18n
        · exact i18n_route_visits ho hd hl (hi18n ▸ htag) h
        · rw [Value.nodes_eq, Value.children_of_tag? htag hi18n, List.flatMap_nil]
          exact tagged_route_visits ho hd htag hdefect hi18n
    | set | bytes | range => cases hclassify

end

/-- Generation without hooks visits the nodes of its value. -/
theorem generateWithin_visits {n d : Nat} {v : Value} {o : Options} {machine : Machine}
    (ho : o.Plain) (hcalls : ∀ node ∈ v.nodes (d + 1), node.level ≤ d + n)
    (hl : machine.Shows v) (scope : Scope) :
    (generateWithin n v scope o).Visits o machine d (v.nodes (d + 1)) := by
  -- Not the value but the calls get fewer: the payload of an `i18n` object is no part of it.
  induction n generalizing v d with
  | zero =>
    have := hcalls _ (v.mem_nodes_self (d + 1))
    simp at this
  | succ n ih =>
    rw [generateWithin]
    by_cases hd : o.maxDepth < (d + 1 : Nat)
    · rw [Value.nodes_eq]
      refine .of_offence (f := .depthExceeded o.maxDepth) (if_pos hd) fun run hrun => ?_
      exact Gen.perform_nested_of_lt (by rw [hrun]; exact_mod_cast hd)
    · have hroute :
          (route (generateWithin n) v scope o).Visits o machine (d + 1) (v.nodes (d + 1)) := by
        refine route_visits ho (not_lt.mp hd) hl fun child hchild => ?_
        refine ih (fun node hnode => ?_) (hl.child hchild)
        have := hcalls node (Value.mem_nodes_of_child hchild hnode)
        omega
      exact hroute.nested (by exact_mod_cast not_lt.mp hd) fun node _ => node.offence?_ne_tooDeep o

theorem generate_visits {d : Nat} {v : Value} {o : Options} {machine : Machine} (ho : o.Plain)
    (hcalls : ∀ node ∈ v.nodes (d + 1), node.level ≤ d + machine.calls)
    (hl : machine.Shows v) (scope : Scope) :
    (generate v scope o).Visits o machine d (v.nodes (d + 1)) := by
  intro run hrun
  rw [generate, Gen.perform_bind_ok Gen.perform_read]
  exact generateWithin_visits ho hcalls hl scope run hrun

theorem generate_unhindered {v : Value} {o : Options} {machine : Machine} {run : Run} (ho : o.Plain)
    (hcalls : ∀ node ∈ v.nodes (run.depth + 1), node.level ≤ run.depth + machine.calls)
    (hl : machine.Shows v) (scope : Scope) :
    (generate v scope o).Unhindered machine run := by
  intro larger hlarger
  have hcalls' (node) (hnode : node ∈ v.nodes (run.depth + 1)) :
      node.level ≤ run.depth + larger.calls := by
    have := hcalls node hnode
    have := hlarger.calls
    omega
  obtain ⟨answer, hanswer, hfault⟩ := generate_visits ho hcalls hl scope run rfl
  obtain ⟨answer', hanswer', hfault'⟩ :=
    generate_visits ho hcalls' (hl.mono hlarger) scope run rfl
  rw [hanswer, hanswer']
  exact ⟨hfault'.trans hfault.symm, rfl⟩

/-- Some limits are enough for all nodes. -/
theorem exists_level_le (nodes : List Node) : ∃ n, ∀ node ∈ nodes, node.level ≤ n := by
  induction nodes with
  | nil => exact ⟨0, by simp⟩
  | cons node nodes ih =>
    obtain ⟨n, hn⟩ := ih
    refine ⟨max node.level n, List.forall_mem_cons.mpr ⟨le_max_left _ _, fun node' hnode => ?_⟩⟩
    exact (hn node' hnode).trans (le_max_right _ _)

/-- **The first offence decides.** With plain options, and limits of the machine that play no part,
generation answers a text exactly if no node of the value offends, and fails with the offence of the
first node that does. It leaves behind one warning for each slot in front of that node, and nothing
else. -/
theorem first_offence_decides {v : Value} {scope : Scope} {o : Options} {machine : Machine}
    {run : Run} (ho : o.Plain) (hlimits : (generate v scope o).Unhindered machine run) :
    ((∃ text, ((generate v scope o).perform machine run).1 = .ok text) ↔
      ∀ node ∈ v.nodes (run.depth + 1), node.offence? o = none) ∧
    (∀ f, ((generate v scope o).perform machine run).1 = .error f ↔
      (v.nodes (run.depth + 1)).findSome? (Node.offence? o) = some f) ∧
    ((generate v scope o).perform machine run).2 =
      { run with warnings := run.warnings ++ o.skips (v.nodes (run.depth + 1)) } := by
  obtain ⟨n, hn⟩ := exists_level_le (v.nodes (run.depth + 1))
  let larger : Machine :=
    { machine with
      calls := max machine.calls n
      nesting := max machine.nesting v.nesting
      digits := max machine.digits v.digits }
  have hlarger : machine.Within larger :=
    ⟨le_max_left _ _, le_max_left _ _, le_max_left _ _, rfl⟩
  have hshows : larger.Shows v := ⟨le_max_right _ _, le_max_right _ _⟩
  have hcalls (node) (hnode : node ∈ v.nodes (run.depth + 1)) :
      node.level ≤ run.depth + larger.calls := by
    have := hn node hnode
    simp only [larger]
    omega
  obtain ⟨answer, hanswer, hfault⟩ := generate_visits ho hcalls hshows scope run rfl
  obtain ⟨hsame, hrun⟩ := hlimits larger hlarger
  rw [hanswer] at hsame hrun
  rw [hfault] at hsame
  refine ⟨?_, fun f => ?_, hrun.symm⟩
  · rw [← List.findSome?_eq_none_iff, hsame]
    cases ((generate v scope o).perform machine run).1 <;> simp [Gen.fault?]
  · rw [hsame]
    cases ((generate v scope o).perform machine run).1 <;> simp [Gen.fault?]

/-- The depth is checked before the kind, and the slot in front has been skipped by then. -/
theorem first_offence_decides_below_i18n :
    let slot := Value.tagged .slot "value" .null
    let params := Value.list [.bytes []]
    let text := Value.map false [(.str "type", .str "i18n"), (.str "params", params)]
    let v := Value.list [slot, text, .set none]
    (generate v .null { maxDepth := 4 }).Unhindered .standard {} ∧
      (generate v .null { maxDepth := 4 }).perform .standard {} =
        (.error (.depthExceeded 4), { warnings := [Slot.skipWarning] }) := by
  intro slot params text v
  have ho : Options.Plain { maxDepth := 4 } := ⟨fun _ => rfl, rfl, rfl, rfl, rfl⟩
  have hroot : v.children = [slot, text, .set none] := rfl
  have hslot : slot.children = [] := rfl
  have htext : text.children = [.map false [(.str "params", params)]] := rfl
  have hpayload : (Value.map false [(.str "params", params)]).children = [params] := rfl
  have hparams : params.children = [.bytes []] := rfl
  have hbytes : (Value.bytes []).children = [] := rfl
  have hset : (Value.set none).children = [] := rfl
  have hnodes : v.nodes 1 = [⟨1, v⟩, ⟨2, slot⟩, ⟨2, text⟩,
      ⟨3, .map false [(.str "params", params)]⟩, ⟨4, params⟩, ⟨5, .bytes []⟩, ⟨2, .set none⟩] := by
    simp [Value.nodes_eq, hroot, hslot, htext, hpayload, hparams, hbytes, hset]
  have hunhindered : (generate v .null { maxDepth := 4 }).Unhindered .standard {} :=
    generate_unhindered ho (by rw [hnodes]; decide) (by decide) .null
  obtain ⟨-, hfault, hrun⟩ := first_offence_decides ho hunhindered
  rw [show ({} : Run).depth + 1 = 1 from rfl, hnodes] at hfault hrun
  exact ⟨hunhindered, Prod.ext ((hfault _).mpr rfl) hrun⟩

end CompositeScript
