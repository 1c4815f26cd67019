import CompositeScript.Proofs.Migration
import CompositeScript.Proofs.Escapes

/-! Data that reaches the text as it is.

Texts and keys are written as literals, which escape surrogates and line separators. Two doors stay
open: the id of a data source and a static `i18n` object are written as JSON, which does not. So the
surrogates and line separators in a text are those of `Value.raw` at the nodes of the value, in
order, as long as no code stands in the value. -/

namespace CompositeScript

/-! ## Answers of steps -/

namespace Gen

variable {α β : Type}

/-- Whatever the step answers satisfies `P`. -/
def Answers (P : α → Prop) (x : Gen α) : Prop :=
  ∀ machine run a after, x.perform machine run = (.ok a, after) → P a

namespace Answers

variable {P : α → Prop} {Q : β → Prop}

theorem pure {a : α} (h : P a) : Answers P (pure a) := by
  rintro machine run a' after ⟨⟩
  exact h

theorem throw (f : Fault) : Answers P (throw f) := by
  rintro machine run a after ⟨⟩

theorem bind {x : Gen α} {k : α → Gen β} (hx : Answers P x) (hk : ∀ a, P a → Answers Q (k a)) :
    Answers Q (x >>= k) := by
  intro machine run b after h
  rcases hanswer : x.perform machine run with ⟨f | a, between⟩
  · rw [perform_bind_error hanswer] at h
    cases h
  · rw [perform_bind_ok hanswer] at h
    exact hk a (hx machine run a between hanswer) machine between b after h

theorem fail (f : Fault) : Answers P (fail f) :=
  fun _ _ _ _ h => (fail_ne_ok (congrArg Prod.fst h)).elim

theorem ofExcept {e : Except Fault α} (h : ∀ a, e = .ok a → P a) : Answers P (ofExcept e) := by
  cases e with
  | ok a => exact .pure (h a rfl)
  | error f => exact .fail f

theorem walk {f : Value → Except Fault α} {v : Value} (h : ∀ a, f v = .ok a → P a) :
    Answers P (walk f v) := by
  intro machine run a after ha
  cases hobstacle : machine.obstacle? v with
  | some obstacle =>
    rw [perform_walk_of_obstacle hobstacle] at ha
    cases ha
  | none =>
    rw [perform_walk (Machine.obstacle?_eq_none_iff.mp hobstacle)] at ha
    exact ofExcept h machine run a after ha

theorem nested {maxDepth : Int} {x : Gen α} (h : Answers P x) :
    Answers P (nested maxDepth x) := by
  intro machine run a after ha
  rw [perform_nested] at ha
  split at ha
  · cases ha
  · obtain ⟨hsurfaced, -⟩ := Prod.ext_iff.mp ha
    exact h machine _ a _ (Prod.ext (eq_ok_of_surfaced hsurfaced) rfl)

/-- The delicate points of the answers of a loop are those of its rounds. -/
theorem mapM {x : α → Gen Text} {d : α → Text} {as : List α}
    (h : ∀ a ∈ as, Answers (fun t => t.delicate = d a) (x a)) :
    Answers (fun ts => ts.flatMap Text.delicate = as.flatMap d) (as.mapM x) := by
  induction as with
  | nil => exact .pure rfl
  | cons a as ih =>
    obtain ⟨ha, has⟩ := List.forall_mem_cons.mp h
    rw [List.mapM_cons]
    refine ha.bind fun t ht => (ih has).bind fun ts hts => .pure ?_
    rw [List.flatMap_cons, List.flatMap_cons, ht, hts]

end Answers

end Gen

/-! ## Raw data -/

namespace Value

/-- The map has a tag under which code is kept. -/
def holdsCode (v : Value) : Bool :=
  v.hasTag .expression || v.hasTag .function || v.hasTag .variableRef || v.hasTag .slot

/-- What is written of a node without escapes: the id of a data source, and the keys and texts of a
static `i18n` object. -/
def raw (v : Value) : Text :=
  if v.hasTag .dataSource then (v.get? "id").elim [] points
  else if v.hasTag .i18n then
    v.entries?.elim [] fun es =>
      if isDynamic es then [] else (map false (Collection.payload es)).plain.points
  else []

/-- The surrogates and line separators in the raw data of the value and all that stands below it. -/
def rawDelicate (level : Nat) (v : Value) : Text :=
  (v.nodes level).flatMap fun node => node.value.raw.delicate

theorem rawDelicate_eq (level : Nat) (v : Value) :
    v.rawDelicate level =
      v.raw.delicate ++ v.children.flatMap (rawDelicate (level + 1)) := by
  rw [rawDelicate, nodes_eq, List.flatMap_cons, List.flatMap_assoc]
  rfl

theorem raw_of_tag? {v : Value} (hsource : v.tag? ≠ some .dataSource)
    (hi18n : v.tag? ≠ some .i18n) : v.raw = [] := by
  simp [raw, hasTag_eq_false hsource, hasTag_eq_false hi18n]

theorem raw_of_dataSource {v : Value} {id : Text} (htag : v.tag? = some .dataSource)
    (hid : v.get? "id" = some (.str id)) : v.raw = id := by
  simp [raw, tag?_eq_some_iff.mp htag, hid, points]

theorem raw_of_i18n {r : Bool} {es : Entries} (htag : (map r es).tag? = some .i18n) :
    (map r es).raw =
      if isDynamic es then [] else (map false (Collection.payload es)).plain.points := by
  have hsource : (map r es).hasTag .dataSource = false := hasTag_eq_false (by simp [htag])
  simp [raw, hsource, tag?_eq_some_iff.mp htag, entries?]

theorem delicate_dataSourceCode (id : Text) : (dataSourceCode id).delicate = id.delicate := by
  rw [dataSourceCode, Text.delicate_append, Text.delicate_append, Json.delicate_string]
  exact List.append_nil _

end Value

/-! ## Generation -/

section
variable {g : Emitter} {scope : Scope} {o : Options} {d : Value → Text}

theorem array_answers (v : Value) {xs : List Value} (hv : v.elements? = some xs)
    (h : ∀ x ∈ xs, Gen.Answers (fun t => t.delicate = d x) (g x scope o)) :
    Gen.Answers (fun t => t.delicate = xs.flatMap d) (Collection.array g v scope o) := by
  simp only [Collection.array, hv]
  refine (Gen.Answers.mapM h).bind fun ts hts => .pure ?_
  rw [Text.delicate_append, Text.delicate_append, Text.delicate_join (by decide), hts]
  exact List.append_nil _

theorem object_answers {r : Bool} {es : Entries} (htag : (Value.map r es).hasTag .i18n = false)
    (h : ∀ e ∈ es, Gen.Answers (fun t => t.delicate = d e.2) (g e.2 scope o)) :
    Gen.Answers (fun t => t.delicate = (es.map Prod.snd).flatMap d)
      (Collection.object g (.map r es) scope o) := by
  have hmember (e : Value × Value) (he : e ∈ es) :
      Gen.Answers (fun t => t.delicate = d e.2) (Collection.member g scope o e) := by
    have hkey : Gen.Answers (fun _ => True) (Gen.shown e.1) := .walk fun _ _ => trivial
    refine hkey.bind fun key _ => (h e he).bind fun t ht => .pure ?_
    rw [Text.delicate_append, Text.delicate_append, Literal.delicate_string, ht]
    rfl
  simp only [Collection.object, htag, Value.entries?, Bool.false_eq_true, if_false]
  refine (Gen.Answers.mapM hmember).bind fun ts hts => .pure ?_
  rw [Text.delicate_append, Text.delicate_append, Text.delicate_join (by decide), hts,
    List.flatMap_map]
  exact List.append_nil _

theorem i18n_answers {r : Bool} {es : Entries} (htag : (Value.map r es).tag? = some .i18n)
    (h : ∀ child ∈ (Value.map r es).children,
      Gen.Answers (fun t => t.delicate = d child) (g child scope o)) :
    Gen.Answers (fun t => t.delicate = (Value.map r es).raw.delicate ++
      (Value.map r es).children.flatMap d) (Collection.object g (.map r es) scope o) := by
  have hcall (argument : Text) :
      Text.delicate ("this._i18nText(" ++ argument ++ ")") = argument.delicate := by
    rw [Text.delicate_append, Text.delicate_append]
    exact List.append_nil _
  simp only [Collection.object, Collection.i18n, Value.tag?_eq_some_iff.mp htag, Value.entries?,
    if_true]
  rw [← Value.isDynamic, Value.raw_of_i18n htag]
  -- As code the payload is a child, whose texts are escaped; as JSON it is raw data of the object.
  cases hdynamic : Value.isDynamic es with
  | true =>
    have hchildren : (Value.map r es).children = [.map false (Collection.payload es)] := by
      simp [Value.children, htag, hdynamic]
    rw [hchildren] at h ⊢
    refine (h _ List.mem_cons_self).bind fun t ht => .pure ?_
    rw [hcall, ht]
    simp
  | false =>
    have hjson : Gen.Answers (fun t => t.delicate =
        (Value.map false (Collection.payload es)).plain.points.delicate)
        (Collection.json (.map false (Collection.payload es))) :=
      .walk fun t ht => Json.delicate_write ht
    refine hjson.bind fun t ht => .pure ?_
    rw [hcall, ht]
    simp [Value.children, htag, hdynamic]

/-- A map without code, whose tag or lack of one decides what is written of it. -/
theorem map_answers {r : Bool} {es : Entries} (ho : o.Hookless)
    (hexpressions : o.expressions = .standard) (hcode : (Value.map r es).holdsCode = false)
    (h : ∀ child ∈ (Value.map r es).children,
      Gen.Answers (fun t => t.delicate = d child) (g child scope o)) :
    Gen.Answers (fun t => t.delicate = (Value.map r es).raw.delicate ++
      (Value.map r es).children.flatMap d) (route g (.map r es) scope o) := by
  cases htag : (Value.map r es).tag? with
  | none =>
    have hchildren : (Value.map r es).children = es.map Prod.snd := by simp [Value.children, htag]
    rw [route_of_hookless ho (Value.classify_of_untagged htag) (by simp) (by simp),
      Value.raw_of_tag? (by simp [htag]) (by simp [htag])]
    rw [hchildren] at h ⊢
    exact object_answers (Value.hasTag_eq_false (by simp [htag])) (List.forall_mem_map.mp h)
  | some tag =>
    have hself := Value.tag?_eq_some_iff.mp htag
    cases tag with
    | expression | function | variableRef | slot => simp [Value.holdsCode, hself] at hcode
    | i18n =>
      rw [route_of_hookless ho (Value.classify_of_i18n htag) (by simp) (by simp)]
      exact i18n_answers htag h
    | dataSource =>
      rw [Value.children_of_tag? htag (by simp), List.flatMap_nil, List.append_nil]
      cases hdefect : (Value.map r es).defect? with
      | some defect =>
        simp only [route, Value.classify, hdefect, Gen.ofExcept, Gen.fail_bind]
        exact .fail _
      | none =>
        obtain ⟨id, hid⟩ := Value.get?_requiredField htag hdefect rfl
        rw [route_dataSource ho hexpressions hself hid, Value.raw_of_dataSource htag hid]
        exact .pure (Value.delicate_dataSourceCode id)

theorem route_answers {v : Value} (ho : o.Hookless) (hexpressions : o.expressions = .standard)
    (hcode : v.holdsCode = false)
    (h : ∀ child ∈ v.children, Gen.Answers (fun t => t.delicate = d child) (g child scope o)) :
    Gen.Answers (fun t => t.delicate = v.raw.delicate ++ v.children.flatMap d)
      (route g v scope o) := by
  have hliteral := v.delicate_code
  cases v with
  | undefined | null | bool | float | str =>
    rw [route_of_hookless ho rfl (by simp) (by simp)]
    exact .pure hliteral
  | int i =>
    rw [route_of_hookless ho rfl (by simp) (by simp)]
    refine .walk ?_
    rintro text ⟨⟩
    exact hliteral
  | list xs =>
    rw [route_of_hookless ho rfl (by simp) (by simp)]
    exact array_answers (.list xs) rfl h
  | tuple xs =>
    rw [route_of_hookless ho rfl (by simp) (by simp)]
    exact array_answers (.tuple xs) rfl h
  | map r es => exact map_answers ho hexpressions hcode h
  | set | bytes | range =>
    simp only [route, Value.classify, Gen.ofExcept, Gen.fail_bind]
    exact .fail _

theorem generateWithin_answers (ho : o.Hookless) (hexpressions : o.expressions = .standard)
    (scope : Scope) (n : Nat) {v : Value} {level : Nat}
    (hcode : ∀ node ∈ v.nodes level, node.value.holdsCode = false) :
    Gen.Answers (fun t => t.delicate = v.rawDelicate level) (generateWithin n v scope o) := by
  induction n generalizing v level with
  | zero => exact .throw _
  | succ n ih =>
    rw [generateWithin, Value.rawDelicate_eq]
    apply Gen.Answers.nested
    apply route_answers ho hexpressions (hcode _ (v.mem_nodes_self level))
    intro child hchild
    exact ih fun node hnode => hcode node (Value.mem_nodes_of_child hchild hnode)

end

/-- **Nothing but ids and static `i18n` objects reaches the text as it is.** Without hooks, let
generation of a value without code succeed. The surrogates and line separators in the text are those
in the ids of its data sources and in the keys and texts of its static `i18n` objects, in order. So
the text has a UTF-8 form exactly if those hold no surrogate. -/
theorem delicate_points_are_raw {v : Value} {scope : Scope} {o : Options} {machine : Machine}
    {run after : Run} {text : Text} (ho : o.Hookless) (hexpressions : o.expressions = .standard)
    (hcode : ∀ node ∈ v.nodes 1, node.value.holdsCode = false)
    (h : (generate v scope o).perform machine run = (.ok text, after)) :
    text.delicate = (v.nodes 1).flatMap (fun node => node.value.raw.delicate) ∧
    (text.hasSurrogate = false ↔ ∀ node ∈ v.nodes 1, node.value.raw.hasSurrogate = false) := by
  rw [generate, Gen.perform_bind_ok Gen.perform_read] at h
  have hdelicate : text.delicate = v.rawDelicate 1 :=
    generateWithin_answers ho hexpressions scope machine.calls hcode machine run text after h
  refine ⟨hdelicate, ?_⟩
  rw [Text.hasSurrogate_iff_delicate, hdelicate]
  simp only [Value.rawDelicate, List.mem_flatMap, Text.hasSurrogate_iff_delicate]
  constructor
  · intro hall node hnode c hc
    exact hall c ⟨node, hnode, hc⟩
  · rintro hall c ⟨node, hnode, hc⟩
    exact hall node hnode c hc

/-- The surrogate of the key and the separator of the text are escaped, those of the id and of the
static `i18n` object are not. -/
theorem delicate_points_are_raw_in_list :
    let half : Text := [.ofNat 0xD800]
    let separator : Text := [.ofNat 0x2028]
    let pair := Value.map false [(.str half, .str separator)]
    let source := Value.tagged .dataSource "id" (.str half)
    let label := Value.tagged .i18n separator (.str half)
    let v := Value.list [pair, source, label]
    let text : Text := "[\x7b\"\\ud800\": \"\\u2028\"\x7d,this.dataSourceMap[\"" ++ half ++
      "\"],this._i18nText(\x7b\"" ++ separator ++ "\":\"" ++ half ++ "\"\x7d)]"
    (∀ node ∈ v.nodes 1, node.value.holdsCode = false) ∧
    (generate v .null {}).perform .standard {} = (.ok text, {}) ∧
    text.delicate = (v.nodes 1).flatMap (fun node => node.value.raw.delicate) ∧
    (text.hasSurrogate = false ↔ ∀ node ∈ v.nodes 1, node.value.raw.hasSurrogate = false) := by
  intro half separator pair source label v text
  have hroot : v.children = [pair, source, label] := rfl
  have hpair : pair.children = [.str separator] := rfl
  have htext : (Value.str separator).children = [] := rfl
  have hsource : source.children = [] := rfl
  have hlabel : label.children = [] := rfl
  have hnodes :
      v.nodes 1 = [⟨1, v⟩, ⟨2, pair⟩, ⟨3, .str separator⟩, ⟨2, source⟩, ⟨2, label⟩] := by
    simp [Value.nodes_eq, hroot, hpair, htext, hsource, hlabel]
  have hcode : ∀ node ∈ v.nodes 1, node.value.holdsCode = false := by
    rw [hnodes]
    simp only [List.forall_mem_cons]
    exact ⟨rfl, rfl, rfl, rfl, rfl, List.forall_mem_nil _⟩
  have hgenerate : (generate v .null {}).perform .standard {} = (.ok text, {}) := rfl
  exact ⟨hcode, hgenerate, delicate_points_are_raw (fun _ => rfl) rfl hcode hgenerate⟩

/-- A surrogate in the id of a data source, and a line separator in a static `i18n` object. -/
theorem data_source_id_unescaped :
    let half : Text := [.ofNat 0xD800]
    let separator : Text := [.ofNat 0x2028]
    let source := Value.tagged .dataSource "id" (.str half)
    let label := Value.tagged .i18n "k" (.str separator)
    let text : Text := "this.dataSourceMap[\"" ++ half ++ "\"]"
    (source.holdsCode = false ∧ (generate source .null {}).perform .standard {} = (.ok text, {}) ∧
      text.hasSurrogate = true) ∧
    (label.holdsCode = false ∧ (generate label .null {}).perform .standard {} =
      (.ok ("this._i18nText(\x7b\"k\":\"" ++ separator ++ "\"\x7d)"), {})) :=
  ⟨⟨rfl, rfl, rfl⟩, rfl, rfl⟩

end CompositeScript
