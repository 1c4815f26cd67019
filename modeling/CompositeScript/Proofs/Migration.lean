import CompositeScript.Proofs.Json.Spelling
import CompositeScript.Proofs.Tracing

/-! Migration of variables and data sources to expressions.

`Value.migrated` puts the expression that a variable or a data source stands for in its place, at
every node of the value. Routing a value and routing what it stands for are the same
(`route_standsFor`), and arrays and objects hand on their items and members, so no run can tell a
value from the migrated one, unless a hook looks at the array or object around it. The id of a data
source is written as JSON and can be read back from the code. -/

namespace CompositeScript

namespace Value

/-! ## Migrated values -/

/-- The members of the map are generated: it has no tag, or it is an `i18n` object with parameters
that may hold code. -/
def isOpen (r : Bool) (es : Entries) : Bool :=
  (map r es).tag?.isNone || (map r es).hasTag .i18n && isDynamic es

mutual

/-- The value with an expression in the place of each variable and each data source, at every node.
One with a defect stays. -/
def migrated : Value → Value
  | list xs => list (migratedItems xs)
  | tuple xs => tuple (migratedItems xs)
  | map r es =>
    if isOpen r es then map r (migratedMembers es)
    else if (map r es).defect?.isNone then (map r es).standsFor
    else map r es
  | v => v

def migratedItems : List Value → List Value
  | [] => []
  | x :: xs => migrated x :: migratedItems xs

def migratedMembers : List (Value × Value) → List (Value × Value)
  | [] => []
  | (k, v) :: es => (k, migrated v) :: migratedMembers es

end

theorem migratedItems_eq_map (xs : List Value) : migratedItems xs = xs.map migrated := by
  induction xs with
  | nil => rfl
  | cons x xs ih => simp [migratedItems, ih]

theorem migratedMembers_eq_map (es : Entries) :
    migratedMembers es = es.map fun e => (e.1, e.2.migrated) := by
  induction es with
  | nil => rfl
  | cons e es ih => simp [migratedMembers, ih]

theorem lookup_migratedMembers (field : Text) (es : Entries) :
    lookup field (migratedMembers es) = (lookup field es).map migrated := by
  rw [migratedMembers_eq_map, lookup, lookup, List.find?_map, Option.map_map, Option.map_map]
  rfl

theorem payload_migratedMembers (es : Entries) :
    Collection.payload (migratedMembers es) = migratedMembers (Collection.payload es) := by
  rw [migratedMembers_eq_map, migratedMembers_eq_map, Collection.payload, Collection.payload,
    List.filter_map]
  rfl

theorem exists_migrated_map (r : Bool) (es : Entries) :
    ∃ r' es', (map r es).migrated = map r' es' := by
  rw [migrated]
  split
  · exact ⟨r, _, rfl⟩
  · split
    · unfold standsFor
      split
      · cases (map r es).get? "variable" with
        | none => exact ⟨r, es, rfl⟩
        | some code => exact ⟨false, _, rfl⟩
      · split
        · cases (map r es).get? "id" with
          | none => exact ⟨r, es, rfl⟩
          | some id => exact ⟨false, _, rfl⟩
        · exact ⟨r, es, rfl⟩
    · exact ⟨r, es, rfl⟩

theorem isContainer_migrated (v : Value) :
    Collection.isContainer v.migrated = Collection.isContainer v := by
  cases v with
  | map r es =>
    obtain ⟨r', es', h⟩ := exists_migrated_map r es
    rw [h]
    rfl
  | _ => rfl

theorem isDynamic_migratedMembers (es : Entries) :
    isDynamic (migratedMembers es) = isDynamic es := by
  rw [isDynamic, isDynamic, payload_migratedMembers, lookup_migratedMembers]
  cases lookup "params" (Collection.payload es) with
  | none => rfl
  | some params => exact isContainer_migrated params

/-! ## Tags -/

theorem tagName?_migratedMembers (r : Bool) (es : Entries) :
    (map r (migratedMembers es)).tagName? = (map r es).tagName? := by
  simp only [tagName?, get?, entries?, Option.bind_some, lookup_migratedMembers]
  cases lookup "type" es with
  | none => rfl
  | some x =>
    cases x with
    | map r' es' =>
      obtain ⟨r'', es'', h⟩ := exists_migrated_map r' es'
      simp [h]
    | _ => rfl

theorem hasTag_migratedMembers (tag : Tag) (r : Bool) (es : Entries) :
    (map r (migratedMembers es)).hasTag tag = (map r es).hasTag tag := by
  rw [hasTag, hasTag, tagName?_migratedMembers]

theorem tag?_migratedMembers (r : Bool) (es : Entries) :
    (map r (migratedMembers es)).tag? = (map r es).tag? := by
  simp only [tag?, hasTag_migratedMembers]

theorem tag?_payload (r : Bool) (es : Entries) : (map r (Collection.payload es)).tag? = none := by
  rw [Option.eq_none_iff_forall_ne_some]
  intro tag htag
  obtain ⟨e, he, htype⟩ := exists_type_of_hasTag (tag?_eq_some_iff.mp htag)
  have := (List.mem_filter.mp he).2
  simp [htype] at this

theorem classify_of_open {r : Bool} {es : Entries} (h : isOpen r es = true) :
    (map r es).classify = .ok .object := by
  rcases Bool.or_eq_true_iff.mp h with htag | hdynamic
  · exact classify_of_untagged (Option.isNone_iff_eq_none.mp htag)
  · exact classify_of_i18n (tag?_eq_some_iff.mpr (Bool.and_eq_true_iff.mp hdynamic).1)

theorem isOpen_migratedMembers (r : Bool) (es : Entries) :
    isOpen r (migratedMembers es) = isOpen r es := by
  rw [isOpen, isOpen, tag?_migratedMembers, hasTag_migratedMembers, isDynamic_migratedMembers]

theorem migrated_of_open {r : Bool} {es : Entries} (h : isOpen r es = true) :
    (map r es).migrated = map r (migratedMembers es) := by
  rw [migrated, if_pos h]

theorem migrated_payload (es : Entries) :
    (map false (Collection.payload es)).migrated =
      map false (Collection.payload (migratedMembers es)) := by
  rw [migrated_of_open (by rw [isOpen, tag?_payload]; rfl), payload_migratedMembers]

/-- A map whose members are not generated is migrated as a whole, or refused before and after. -/
theorem migrated_of_not_open {r : Bool} {es : Entries} (h : isOpen r es = false) :
    (map r es).migrated = (map r es).standsFor ∧ (∃ kind, (map r es).classify = .ok kind) ∨
      (map r es).migrated = map r es ∧
        ∃ d, (map r es).classify = .error (.malformed (map r es) d) := by
  rw [migrated, if_neg (by simp [h])]
  cases hdefect : (map r es).defect? with
  | none => exact .inl ⟨rfl, _, by simp [classify, hdefect]; rfl⟩
  | some d => exact .inr ⟨rfl, d, by simp [classify, hdefect]⟩

/-! ## Nodes of migrated values -/

theorem children_migrated (v : Value) : v.migrated.children = v.children.map migrated := by
  cases v with
  | list xs | tuple xs => simp [migrated, children, migratedItems_eq_map]
  | map r es =>
    cases hopen : isOpen r es with
    | true =>
      rw [migrated_of_open hopen]
      simp only [children, tag?_migratedMembers, isDynamic_migratedMembers]
      rcases Bool.or_eq_true_iff.mp hopen with htag | hdynamic
      · rw [Option.isNone_iff_eq_none.mp htag, migratedMembers_eq_map]
        simp
      · obtain ⟨htag, hdynamic⟩ := Bool.and_eq_true_iff.mp hdynamic
        simp [tag?_eq_some_iff.mpr htag, hdynamic, migrated_payload]
    | false =>
      have hchildren : (map r es).children = [] := by
        cases htag : (map r es).tag? with
        | none => simp [isOpen, htag] at hopen
        | some tag =>
          by_cases hi18n : tag = .i18n
          · subst hi18n
            have hstatic : isDynamic es = false := by
              simpa [isOpen, htag, tag?_eq_some_iff.mp htag] using hopen
            simp [children, htag, hstatic]
          · exact children_of_tag? htag hi18n
      rcases migrated_of_not_open hopen with ⟨hmigrated, kind, hkind⟩ | ⟨hmigrated, -⟩
      · obtain ⟨_, -, -, -, hstands⟩ := desugar_of_classify hkind
        rw [hmigrated, hstands, hchildren, List.map_nil]
      · rw [hmigrated, hchildren, List.map_nil]
  | _ => rfl

/-- The nodes of the migrated value are the nodes of the value, migrated one by one. -/
theorem nodes_migrated (level : Nat) (v : Value) :
    v.migrated.nodes level = (v.nodes level).map fun node => ⟨node.level, node.value.migrated⟩ := by
  -- The payload of an `i18n` object is a child but not a part of it, so the induction is on size.
  induction hsize : sizeOf v using Nat.strong_induction_on generalizing level v with
  | _ n ih =>
    subst hsize
    rw [nodes_eq, nodes_eq level v, children_migrated, List.map_cons, List.map_flatMap,
      List.flatMap_map]
    congr 1
    apply List.flatMap_congr
    intro child hchild
    exact ih _ (sizeOf_child_lt hchild) (level + 1) child rfl

/-- A migrated value is neither a variable nor a data source, unless it has a defect. -/
theorem classify_migrated {v : Value} {kind : Kind} (h : v.migrated.classify = .ok kind) :
    kind ∈ Kind.emitting := by
  cases v with
  | map r es =>
    cases hopen : isOpen r es with
    | true =>
      rw [migrated_of_open hopen, classify_of_open (by rw [isOpen_migratedMembers, hopen])] at h
      obtain rfl := Except.ok.inj h
      decide
    | false =>
      rcases migrated_of_not_open hopen with ⟨hmigrated, kind', hkind'⟩ | ⟨hmigrated, d, hfault⟩
      · obtain ⟨_, hemits, -, hstands, -⟩ := desugar_of_classify hkind'
        rw [hmigrated, hstands] at h
        obtain rfl := Except.ok.inj h
        exact hemits
      · rw [hmigrated, hfault] at h
        cases h
  | set | bytes | range => cases h
  | _ =>
    obtain rfl := Except.ok.inj h
    decide

end Value

/-! ## Generation -/

section
variable {g : Emitter} {v : Value} {scope : Scope} {o : Options} {kind : Kind}

theorem route_standsFor (h : v.classify = .ok kind) :
    route g v.standsFor scope o = route g v scope o := by
  obtain ⟨kind', hemits, hdesugar, hstands, -⟩ := Value.desugar_of_classify h
  have hself : desugar kind' v.standsFor = (kind', v.standsFor) := by
    apply desugar_of_ne
    · rintro rfl
      exact absurd hemits (by decide)
    · rintro rfl
      exact absurd hemits (by decide)
  rw [route_of_classify hstands, route_of_classify h, hself, hdesugar]

theorem array_migrated {w : Value} (xs : List Value) (hv : v.elements? = some xs)
    (hw : w.elements? = some (Value.migratedItems xs))
    (h : ∀ x ∈ xs, g x.migrated scope o = g x scope o) :
    Collection.array g w scope o = Collection.array g v scope o := by
  have hitems : (Value.migratedItems xs).mapM (fun item => g item scope o) =
      xs.mapM fun item => g item scope o := by
    rw [Value.migratedItems_eq_map, List.mapM_map]
    exact Gen.mapM_congr h
  simp only [Collection.array, hv, hw, hitems]

theorem object_migrated {r : Bool} {es : Entries} (htag : (Value.map r es).tag? = none)
    (h : ∀ e ∈ es, g e.2.migrated scope o = g e.2 scope o) :
    Collection.object g (.map r (Value.migratedMembers es)) scope o =
      Collection.object g (.map r es) scope o := by
  have hi18n : (Value.map r es).hasTag .i18n = false := Value.hasTag_eq_false (by simp [htag])
  have hmember (e) (he : e ∈ es) :
      Collection.member g scope o (e.1, e.2.migrated) = Collection.member g scope o e := by
    simp only [Collection.member, h e he]
  have hmembers : (Value.migratedMembers es).mapM (Collection.member g scope o) =
      es.mapM (Collection.member g scope o) := by
    rw [Value.migratedMembers_eq_map, List.mapM_map]
    exact Gen.mapM_congr hmember
  simp only [Collection.object, Value.hasTag_migratedMembers, hi18n, Value.entries?, hmembers]
  rfl

theorem i18n_migrated {r : Bool} {es : Entries} (htag : (Value.map r es).tag? = some .i18n)
    (hdynamic : Value.isDynamic es = true)
    (h : g (Value.map false (Collection.payload es)).migrated scope o =
      g (.map false (Collection.payload es)) scope o) :
    Collection.object g (.map r (Value.migratedMembers es)) scope o =
      Collection.object g (.map r es) scope o := by
  have hdynamic' := Value.isDynamic_migratedMembers es
  rw [hdynamic] at hdynamic'
  rw [Value.isDynamic] at hdynamic hdynamic'
  rw [Value.migrated_payload] at h
  simp only [Collection.object, Collection.i18n, Value.hasTag_migratedMembers,
    Value.tag?_eq_some_iff.mp htag, Value.entries?, if_true, hdynamic, hdynamic', h]

/-- Without hooks for arrays and objects, a value is routed as the migrated one is, if the generator
does so with its children. -/
theorem route_migrated (harray : o.hooksFor? Kind.array.name = none)
    (hobject : o.hooksFor? Kind.object.name = none)
    (h : ∀ child ∈ v.children, g child.migrated scope o = g child scope o) :
    route g v.migrated scope o = route g v scope o := by
  cases v with
  | list xs | tuple xs =>
    rw [Value.migrated, route_of_hooksFor? harray rfl (by simp) (by simp),
      route_of_hooksFor? harray rfl (by simp) (by simp)]
    simp only [Kind.emit]
    exact array_migrated xs rfl rfl h
  | map r es =>
    cases hopen : Value.isOpen r es with
    | true =>
      have hclassify := Value.classify_of_open hopen
      have hclassify' : (Value.map r (Value.migratedMembers es)).classify = .ok .object :=
        Value.classify_of_open (by rw [Value.isOpen_migratedMembers, hopen])
      rw [Value.migrated_of_open hopen, route_of_hooksFor? hobject hclassify (by simp) (by simp),
        route_of_hooksFor? hobject hclassify' (by simp) (by simp)]
      rcases Bool.or_eq_true_iff.mp hopen with htag | hdynamic
      · have htag := Option.isNone_iff_eq_none.mp htag
        apply object_migrated htag
        intro e he
        exact h e.2 (by simpa [Value.children, htag] using ⟨e.1, he⟩)
      · obtain ⟨htag, hdynamic⟩ := Bool.and_eq_true_iff.mp hdynamic
        have htag := Value.tag?_eq_some_iff.mpr htag
        exact i18n_migrated htag hdynamic (h _ (by simp [Value.children, htag, hdynamic]))
    | false =>
      -- Nothing below the map is generated, so the children are of no use here.
      rcases Value.migrated_of_not_open hopen with ⟨hmigrated, kind, hkind⟩ | ⟨hmigrated, -⟩
      · rw [hmigrated, route_standsFor hkind]
      · rw [hmigrated]
  | _ => rfl

theorem generateWithin_migrated (harray : o.hooksFor? Kind.array.name = none)
    (hobject : o.hooksFor? Kind.object.name = none) (n : Nat) (v : Value) :
    generateWithin n v.migrated scope o = generateWithin n v scope o := by
  induction n generalizing v with
  | zero => rfl
  | succ n ih =>
    rw [generateWithin, generateWithin, route_migrated harray hobject fun child _ => ih child]

end

/-! ## Data sources -/

theorem Text.strip_of_ends {a b : CodePoint} {t : Text} (ha : a.isBlank = false)
    (hb : b.isBlank = false) : Text.strip (a :: t ++ [b]) = a :: t ++ [b] := by
  simp [strip, stripEnd, ha, hb]

theorem dataSourceCode_eq (id : Text) :
    dataSourceCode id =
      ('t' : CodePoint) :: ("his.dataSourceMap[" ++ Json.string id) ++ [(']' : CodePoint)] := by
  simp [dataSourceCode, Text.ofString]

theorem render_dataSourceCode (id : Text) :
    Expression.render (Expression.ofCode (.str (dataSourceCode id))) = .ok (dataSourceCode id) := by
  have hstrip : Text.strip (dataSourceCode id) = dataSourceCode id := by
    rw [dataSourceCode_eq]
    exact Text.strip_of_ends (by decide) (by decide)
  have hcode : Expression.codeOf .expression .expression
      (Expression.ofCode (.str (dataSourceCode id))) = .ok (dataSourceCode id) := rfl
  rw [Expression.render, hcode, Except.map, hstrip, if_neg (by simp [dataSourceCode_eq])]

theorem Value.classify_of_dataSource {v : Value} {id : Text} (htag : v.hasTag .dataSource = true)
    (hid : v.get? "id" = some (.str id)) : v.classify = .ok .dataSource := by
  cases v with
  | map r es =>
    have htag := tag?_eq_some_iff.mpr htag
    have hdefect : (map r es).defect? = none := by
      simp [defect?, htag, Tag.requiredField?, hid]
    simp [classify, hdefect, htag, Tag.kind]
  | _ => simp [get?, entries?] at hid

/-- Without hooks, a data source is emitted as the code that reads it. -/
theorem route_dataSource {g : Emitter} {v : Value} {id : Text} {scope : Scope} {o : Options}
    (ho : o.Hookless) (hexpressions : o.expressions = .standard)
    (htag : v.hasTag .dataSource = true) (hid : v.get? "id" = some (.str id)) :
    route g v scope o = pure (dataSourceCode id) := by
  have hdesugar : desugar .dataSource v =
      (.expression, Expression.ofCode (.str (dataSourceCode id))) := by
    simp [desugar, hid]
  rw [route_of_classify (Value.classify_of_dataSource htag hid), hdesugar, dispatch_of_hookless ho]
  simp only [Kind.emit, hexpressions, Expression.emit, render_dataSourceCode, Gen.ofExcept]

/-- **Migration cannot be seen in what is generated.** Without hooks for arrays and objects, and
whatever the other hooks, the node generator and the bounds are, a run on the migrated value answers
what the run on the value answers, and leaves the same behind. No node of a migrated value is a
variable or a data source, unless it has a defect. With the default options the code of a data
source holds a literal from which the reader gets exactly the id back. -/
theorem migration_keeps_generation :
    (∀ (v : Value) (scope : Scope) (o : Options) (machine : Machine) (run : Run),
      o.hooksFor? Kind.array.name = none → o.hooksFor? Kind.object.name = none →
      (generate v.migrated scope o).perform machine run =
        (generate v scope o).perform machine run) ∧
    (∀ v : Value, ∀ node ∈ v.migrated.nodes 1,
      node.value.classify ≠ .ok .variableRef ∧ node.value.classify ≠ .ok .dataSource) ∧
    (∀ (v : Value) (id : Text) (scope : Scope) (machine : Machine), v.hasTag .dataSource = true →
      v.get? "id" = some (.str id) → 0 < machine.calls →
      ∃ literal, (generate v scope {}).perform machine {} =
          (.ok ("this.dataSourceMap[" ++ literal ++ "]"), {}) ∧
        Json.readString literal = some (id, []) ∧ Json.read literal = some (.str id)) := by
  refine ⟨?_, ?_, ?_⟩
  · intro v scope o machine run harray hobject
    have hsame : generate v.migrated scope o = generate v scope o := by
      simp only [generate, generateWithin_migrated harray hobject]
    rw [hsame]
  · intro v node hnode
    rw [Value.nodes_migrated] at hnode
    obtain ⟨node, -, rfl⟩ := List.mem_map.mp hnode
    constructor
    · intro h
      exact absurd (Value.classify_migrated h) (by decide)
    · intro h
      exact absurd (Value.classify_migrated h) (by decide)
  · intro v id scope machine htag hid hcalls
    refine ⟨Json.string id, ?_, ?_, ?_⟩
    · obtain ⟨n, hn⟩ := Nat.exists_eq_succ_of_ne_zero hcalls.ne'
      rw [generate, Gen.perform_bind_ok Gen.perform_read, hn, generateWithin,
        route_dataSource (fun _ => rfl) rfl htag hid]
      rfl
    · simpa using Json.readString_jsonString id []
    · exact Json.read_spells (.str (Json.readString_jsonString id))

/-- The data source stands in the parameters of an `i18n` object, and its id needs an escape and
holds a surrogate pair in two halves; the expressions it and the variable stand for are traced. -/
theorem migration_keeps_generation_below_i18n :
    let id : Text := [.ofNat 0xD83D, .ofNat 0xDE00, '"']
    let source := Value.tagged .dataSource "id" (.str id)
    let v := Value.list [.tagged .variableRef "variable" (.str " a "),
      .map true [(.str "type", .str "i18n"), (.str "params", .tuple [source])]]
    let o : Options := { handlers := [("expression", .list [.trace "e", .tag "T"])] }
    (o.hooksFor? Kind.array.name = none ∧ o.hooksFor? Kind.object.name = none ∧
      (generate v.migrated .null o).perform .standard {} =
        (generate v .null o).perform .standard {}) ∧
    (⟨1, v.migrated⟩ ∈ v.migrated.nodes 1 ∧
      v.migrated.classify ≠ .ok .variableRef ∧ v.migrated.classify ≠ .ok .dataSource) ∧
    (source.hasTag .dataSource = true ∧ source.get? "id" = some (.str id) ∧
      ∃ literal, (generate source .null {}).perform .standard {} =
          (.ok ("this.dataSourceMap[" ++ literal ++ "]"), {}) ∧
        Json.readString literal = some (id, []) ∧ Json.read literal = some (.str id)) := by
  intro id source v o
  obtain ⟨hgenerate, hnodes, hsource⟩ := migration_keeps_generation
  have hself := v.migrated.mem_nodes_self 1
  exact ⟨⟨rfl, rfl, hgenerate v .null o .standard {} rfl rfl⟩, ⟨hself, hnodes v _ hself⟩,
    rfl, rfl, hsource source id .null .standard rfl rfl (by decide)⟩

end CompositeScript
