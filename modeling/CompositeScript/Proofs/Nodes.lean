import CompositeScript.Proofs.Run
import CompositeScript.Proofs.Text

/-! The nodes of a value: what generation meets on its way through the value.

The items of an array and the member values of a plain object stand one level below it. An `i18n`
object whose parameters may hold code has one child, the rest of the object; a static one, any other
tagged map and a scalar have none. `Value.nodes` lists a value and what stands below it, each node
with its level and before its children. A node is dispatched on as what it stands for: a variable
and a data source as an expression (`Value.desugar_of_classify`). -/

namespace CompositeScript

namespace Value

/-! ## Nesting and digits -/

theorem nesting_pos (v : Value) : 0 < v.nesting := by
  cases v with
  | set item => cases item <;> simp [nesting]
  | _ => simp [nesting]

theorem nestings_le_iff {xs : List Value} {n : Nat} :
    nestings xs ≤ n ↔ ∀ x ∈ xs, x.nesting ≤ n := by
  induction xs with
  | nil => simp [nestings]
  | cons x xs ih => simp [nestings, ih]

theorem entryNestings_le_iff {es : Entries} {n : Nat} :
    entryNestings es ≤ n ↔ ∀ e ∈ es, e.1.nesting ≤ n ∧ e.2.nesting ≤ n := by
  induction es with
  | nil => simp [entryNestings]
  | cons e es ih => simp [entryNestings, ih, and_assoc]

theorem itemDigits_le_iff {xs : List Value} {n : Nat} :
    itemDigits xs ≤ n ↔ ∀ x ∈ xs, x.digits ≤ n := by
  induction xs with
  | nil => simp [itemDigits]
  | cons x xs ih => simp [itemDigits, ih]

theorem entryDigits_le_iff {es : Entries} {n : Nat} :
    entryDigits es ≤ n ↔ ∀ e ∈ es, e.1.digits ≤ n ∧ e.2.digits ≤ n := by
  induction es with
  | nil => simp [entryDigits]
  | cons e es ih => simp [entryDigits, ih, and_assoc]

theorem lt_digits_int {i : Int} {n : Nat} (hn : 0 < n) (hi : 10 ^ n ≤ i.natAbs) :
    n < (int i).digits := by
  rw [digits, ← not_le, Text.length_ofNat_le_iff hn]
  omega

theorem nesting_iterate_list (n : Nat) : ((fun w => list [w])^[n] null).nesting = n + 1 := by
  induction n with
  | zero => rfl
  | succ n ih =>
    rw [Function.iterate_succ_apply', nesting, nestings, nestings, ih]
    omega

/-! ## Children -/

/-- The parameters of an `i18n` object may hold code, so its payload is generated. -/
def isDynamic (es : Entries) : Bool :=
  (lookup "params" (Collection.payload es)).any Collection.isContainer

/-- What generation goes on to below a value. -/
def children : Value → List Value
  | list xs | tuple xs => xs
  | map r es =>
    match (map r es).tag? with
    | none => es.map Prod.snd
    | some .i18n => if isDynamic es then [map false (Collection.payload es)] else []
    | some _ => []
  | _ => []

theorem children_of_tag? {r : Bool} {es : Entries} {tag : Tag} (htag : (map r es).tag? = some tag)
    (hi18n : tag ≠ .i18n) : (map r es).children = [] := by
  cases tag <;> simp_all [children]

theorem exists_type_of_hasTag {r : Bool} {es : Entries} {tag : Tag}
    (h : (map r es).hasTag tag = true) : ∃ e ∈ es, e.1.isText "type" = true := by
  have hname : (map r es).tagName? = some tag.name := by simpa [hasTag] using h
  simp only [tagName?, get?, entries?, Option.bind_some, lookup] at hname
  cases hfind : es.find? fun e => e.1.isText "type" with
  | none => simp [hfind] at hname
  | some e =>
    have htype := List.find?_some hfind
    exact ⟨e, List.mem_of_find?_eq_some hfind, htype⟩

theorem sizeOf_filter_le {p : Value × Value → Bool} (es : Entries) :
    sizeOf (es.filter p) ≤ sizeOf es := by
  induction es with
  | nil => simp
  | cons e es ih =>
    rw [List.filter_cons]
    split <;> simp only [List.cons.sizeOf_spec] <;> omega

theorem sizeOf_filter_lt {p : Value × Value → Bool} {es : Entries} (h : ∃ e ∈ es, p e = false) :
    sizeOf (es.filter p) < sizeOf es := by
  induction es with
  | nil => simp at h
  | cons e es ih =>
    rw [List.filter_cons]
    split
    · next he =>
      obtain ⟨e', he', hp⟩ := h
      have hes : e' ∈ es := by
        rcases List.mem_cons.mp he' with rfl | hes
        · simp [he] at hp
        · exact hes
      have := ih ⟨e', hes, hp⟩
      simp only [List.cons.sizeOf_spec]
      omega
    · have := sizeOf_filter_le (p := p) es
      simp only [List.cons.sizeOf_spec]
      omega

theorem sizeOf_child_lt {v child : Value} (h : child ∈ v.children) : sizeOf child < sizeOf v := by
  cases v with
  | list xs | tuple xs =>
    have : sizeOf child < sizeOf xs := List.sizeOf_lt_of_mem h
    simp only [list.sizeOf_spec, tuple.sizeOf_spec]
    omega
  | map r es =>
    simp only [children] at h
    split at h
    · obtain ⟨⟨k, x⟩, he, rfl⟩ := List.mem_map.mp h
      have := List.sizeOf_lt_of_mem he
      simp only [map.sizeOf_spec, Prod.mk.sizeOf_spec] at this ⊢
      omega
    · next htag =>
      split at h
      · obtain rfl := List.mem_singleton.mp h
        obtain ⟨e, he, htype⟩ := exists_type_of_hasTag (tag?_eq_some_iff.mp htag)
        have := sizeOf_filter_lt (p := fun e => !e.1.isText "type") ⟨e, he, by simp [htype]⟩
        simp only [map.sizeOf_spec, Collection.payload]
        cases r <;> simp <;> omega
      · simp at h
    · simp at h
  | _ => simp [children] at h

end Value

/-! ## What a machine shows -/

namespace Machine.Shows

variable {machine : Machine} {r : Bool} {es : Entries}

theorem item {v x : Value} {xs : List Value} (hv : v = .list xs ∨ v = .tuple xs)
    (h : machine.Shows v) (hx : x ∈ xs) : machine.Shows x := by
  have hnesting := Value.nestings_le_iff.mp (le_refl (Value.nestings xs)) x hx
  have hdigits := Value.itemDigits_le_iff.mp (le_refl (Value.itemDigits xs)) x hx
  obtain ⟨hnestings, hlimit⟩ := h
  rcases hv with rfl | rfl <;> simp only [Value.nesting, Value.digits] at hnestings hlimit <;>
    exact ⟨by omega, by omega⟩

theorem entry (h : machine.Shows (.map r es)) {e : Value × Value} (he : e ∈ es) :
    machine.Shows e.1 ∧ machine.Shows e.2 := by
  have hnesting := Value.entryNestings_le_iff.mp (le_refl (Value.entryNestings es)) e he
  have hdigits := Value.entryDigits_le_iff.mp (le_refl (Value.entryDigits es)) e he
  obtain ⟨hnestings, hlimit⟩ := h
  simp only [Value.nesting, Value.digits] at hnestings hlimit
  exact ⟨⟨by omega, by omega⟩, ⟨by omega, by omega⟩⟩

theorem filter (h : machine.Shows (.map r es)) (r' : Bool) (p : Value × Value → Bool) :
    machine.Shows (.map r' (es.filter p)) := by
  have hnestings : Value.entryNestings (es.filter p) ≤ Value.entryNestings es :=
    Value.entryNestings_le_iff.mpr fun e he =>
      Value.entryNestings_le_iff.mp (le_refl _) e (List.mem_of_mem_filter he)
  have hdigits : Value.entryDigits (es.filter p) ≤ Value.entryDigits es :=
    Value.entryDigits_le_iff.mpr fun e he =>
      Value.entryDigits_le_iff.mp (le_refl _) e (List.mem_of_mem_filter he)
  exact ⟨(Nat.succ_le_succ hnestings).trans h.nesting, hdigits.trans h.digits⟩

theorem child {v child : Value} (h : machine.Shows v) (hchild : child ∈ v.children) :
    machine.Shows child := by
  cases v with
  | list xs => exact h.item (.inl rfl) hchild
  | tuple xs => exact h.item (.inr rfl) hchild
  | map r es =>
    simp only [Value.children] at hchild
    split at hchild
    · obtain ⟨e, he, rfl⟩ := List.mem_map.mp hchild
      exact (h.entry he).2
    · split at hchild
      · obtain rfl := List.mem_singleton.mp hchild
        exact h.filter false _
      · simp at hchild
    · simp at hchild
  | _ => simp [Value.children] at hchild

end Machine.Shows

/-! ## Nodes -/

/-- A value that generation meets, and how many calls are open then, its own included. -/
structure Node where
  level : Nat
  value : Value

namespace Value

/-- The value at a level and all that stands below it, each node before its children. -/
def nodes (level : Nat) (v : Value) : List Node :=
  ⟨level, v⟩ :: v.children.attach.flatMap fun child => nodes (level + 1) child.1
termination_by sizeOf v
decreasing_by exact sizeOf_child_lt child.2

theorem nodes_eq (level : Nat) (v : Value) :
    v.nodes level = ⟨level, v⟩ :: v.children.flatMap (nodes (level + 1)) := by
  rw [nodes, List.flatMap_subtype (g := nodes (level + 1)) fun _ _ => rfl]
  simp

theorem mem_nodes_self (level : Nat) (v : Value) : ⟨level, v⟩ ∈ v.nodes level := by
  rw [nodes_eq]
  exact List.mem_cons_self

theorem mem_nodes_of_child {level : Nat} {v child : Value} {node : Node} (h : child ∈ v.children)
    (hnode : node ∈ child.nodes (level + 1)) : node ∈ v.nodes level := by
  rw [nodes_eq]
  exact List.mem_cons_of_mem _ (List.mem_flatMap.mpr ⟨child, h, hnode⟩)

end Value

/-! ## Dispatch -/

/-- The kinds that have an emitter of their own, and hooks around it. -/
def Kind.emitting : List Kind :=
  [.undefined, .null, .array, .expression, .function, .slot, .object, .string, .number, .boolean]

/-- A name under which hooks are looked up: that of a kind that is emitted. -/
abbrev HookName : Type := { name : Text // ∃ kind ∈ Kind.emitting, kind.name = name }

namespace Value

/-- The value that is dispatched on: for a variable or a data source, the expression that it stands
for. -/
def standsFor (v : Value) : Value :=
  if v.hasTag .variableRef then (v.get? "variable").elim v Expression.ofCode
  else if v.hasTag .dataSource then
    (v.get? "id").elim v fun id => Expression.ofCode (str (dataSourceCode id.shown))
  else v

/-- The values that generation dispatches on, each before those inside of it. -/
def dispatched (v : Value) : List Value := (v.nodes 1).map fun node => node.value.standsFor

variable {v : Value} {kind : Kind}

theorem standsFor_of_tag? (hvariable : v.tag? ≠ some .variableRef)
    (hsource : v.tag? ≠ some .dataSource) : v.standsFor = v := by
  simp [standsFor, hasTag_eq_false hvariable, hasTag_eq_false hsource]

/-- What a value stands for is what it is emitted as. It is of a kind that is emitted, and holds
what the value holds. -/
theorem desugar_of_classify (h : v.classify = .ok kind) : ∃ kind' ∈ Kind.emitting,
    desugar kind v = (kind', v.standsFor) ∧ v.standsFor.classify = .ok kind' ∧
      v.standsFor.children = v.children := by
  cases v with
  | map r es =>
    have hdefect := defect?_of_classify h
    cases htag : (map r es).tag? with
    | none =>
      obtain rfl : Kind.object = kind := Except.ok.inj ((classify_of_untagged htag).symm.trans h)
      rw [standsFor_of_tag? (by simp [htag]) (by simp [htag])]
      exact ⟨.object, by decide, desugar_of_ne (by simp) (by simp), h, rfl⟩
    | some tag =>
      obtain rfl : tag.kind = kind := by simpa [classify, hdefect, htag] using h
      cases tag with
      | variableRef =>
        obtain ⟨code, hcode⟩ := get?_requiredField htag hdefect rfl
        have hstands : (map r es).standsFor = Expression.ofCode (str code) := by
          simp [standsFor, tag?_eq_some_iff.mp htag, hcode]
        rw [hstands]
        exact ⟨.expression, by decide, by simp [desugar, Tag.kind, hcode], rfl,
          (children_of_tag? htag (by simp)).symm⟩
      | dataSource =>
        obtain ⟨id, hid⟩ := get?_requiredField htag hdefect rfl
        have hstands : (map r es).standsFor = Expression.ofCode (str (dataSourceCode id)) := by
          have hvariable : (map r es).hasTag .variableRef = false :=
            hasTag_eq_false (by simp [htag])
          simp [standsFor, hvariable, tag?_eq_some_iff.mp htag, hid, shown]
        rw [hstands]
        exact ⟨.expression, by decide, by simp [desugar, Tag.kind, hid], rfl,
          (children_of_tag? htag (by simp)).symm⟩
      | expression | function | slot | i18n =>
        rw [standsFor_of_tag? (by simp [htag]) (by simp [htag])]
        exact ⟨_, by decide, desugar_of_ne (by simp [Tag.kind]) (by simp [Tag.kind]), h, rfl⟩
  | set | bytes | range => cases h
  | _ =>
    obtain rfl := Except.ok.inj h
    exact ⟨_, by decide, desugar_of_ne (by simp) (by simp), h, rfl⟩

end Value

end CompositeScript
