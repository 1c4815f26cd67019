import CompositeScript.Proofs.Serialisers
import CompositeScript.Proofs.Quiet

/-! JSON of arbitrary values.

The normal form of a value says what its JSON text denotes: sequences of any kind are lists, and a
map has text keys, of which each is kept at its first place with the last of its values. A member
that is undefined is gone before keys are merged, while an undefined item becomes `null`. Nothing
but a set, or `undefined` itself, can be left in a normal form that JSON does not have, so a set
that a later member replaces does no harm. -/

namespace CompositeScript

namespace Value

/-! ## Normal forms -/

/-- The members with each key once: in the order of the first places, with the last values. -/
def lastWins (members : List (Text × Value)) : List (Text × Value) :=
  (members.map Prod.fst).eraseDups.filterMap fun t => members.reverse.find? fun m => m.1 == t

mutual

/-- What the JSON text of a value denotes. -/
def normal : Value → Value
  | map _ es => map false ((lastWins (normalMembers es)).map fun m => (str m.1, m.2))
  | list xs | tuple xs => list (normalItems xs)
  | bytes os => list (os.map fun o => int o.toNat)
  | range n => list ((List.range n.toNat).map fun (i : Nat) => int i)
  | v => v

def normalItems : List Value → List Value
  | [] => []
  | undefined :: xs => null :: normalItems xs
  | x :: xs => normal x :: normalItems xs

def normalMembers : List (Value × Value) → List (Text × Value)
  | [] => []
  | (_, undefined) :: es => normalMembers es
  | (k, v) :: es => (k.shown, normal v) :: normalMembers es

end

def isSet : Value → Bool
  | set _ => true
  | _ => false

/-- A set stands somewhere in the value. -/
def holdsSet (v : Value) : Bool := !v.all fun x => !x.isSet

/-- No double, and no integer with more digits than are read. -/
def isExact : Value → Bool
  | float _ => false
  | int i => i.natAbs < 10 ^ Text.maxDigits
  | range n => n.toNat ≤ 10 ^ Text.maxDigits
  | _ => true

theorem holdsSet_eq_false {v : Value} :
    v.holdsSet = false ↔ v.all (fun x => !x.isSet) = true := by
  rw [holdsSet, Bool.not_eq_false']

theorem isExact_int {i : Int} :
    (int i).all isExact = true ↔ i.natAbs < 10 ^ Text.maxDigits := by
  simp only [all, isExact, decide_eq_true_eq]

theorem isExact_range {n : Int} :
    (range n).all isExact = true ↔ n.toNat ≤ 10 ^ Text.maxDigits := by
  simp only [all, isExact, decide_eq_true_eq]

/-! ## Plain data in normal form -/

theorem eq_filterMap_lookup {es : Entries} {texts : List Text}
    (hkeys : es.map Prod.fst = texts.map str) (hnodup : texts.Nodup) :
    es = texts.filterMap fun t => (lookup t es).map fun v => (str t, v) := by
  induction texts generalizing es with
  | nil => simpa using hkeys
  | cons t texts ih =>
    cases es with
    | nil => cases hkeys
    | cons e es =>
      obtain ⟨hkey, hkeys⟩ := List.cons.inj hkeys
      obtain ⟨hnotin, hnodup⟩ := List.nodup_cons.mp hnodup
      have hfirst : lookup t (e :: es) = some e.2 := by
        rw [lookup_cons, hkey]
        simp [isText]
      have hothers : ∀ u ∈ texts, (lookup u (e :: es)).map (fun v => (str u, v)) =
          (lookup u es).map fun v => (str u, v) := by
        intro u hu
        have hne : t ≠ u := fun h => hnotin (h ▸ hu)
        rw [lookup_cons, hkey, isText, if_neg (by simpa using hne)]
      rw [List.filterMap_cons, hfirst, Option.map_some, List.filterMap_congr hothers,
        ← ih hkeys hnodup, ← hkey]

theorem entriesOf_eq_lastWins (members : List (Text × Value)) :
    entriesOf (members.map fun m => (str m.1, m.2)) =
      (lastWins members).map fun m => (str m.1, m.2) := by
  have hnodup := Text.nodup_eraseDups (members.map Prod.fst)
  rw [eq_filterMap_lookup (keys_entriesOf members) hnodup, lastWins, List.map_filterMap]
  apply List.filterMap_congr
  intro t _
  rw [lookup_entriesOf]
  cases hfind : members.reverse.find? fun m => m.1 == t with
  | none => rfl
  | some m =>
    have hkey : m.1 = t := by simpa using List.find?_some hfind
    simp [hkey]

theorem keys_lastWins (members : List (Text × Value)) :
    (lastWins members).map Prod.fst = (members.map Prod.fst).eraseDups := by
  have hkeys := keys_entriesOf members
  rw [entriesOf_eq_lastWins, List.map_map] at hkeys
  have hstr : Function.Injective str := fun _ _ => Value.str.inj
  apply hstr.list_map
  rw [List.map_map, ← hkeys]
  rfl

theorem mem_of_mem_lastWins {members : List (Text × Value)} {m : Text × Value}
    (h : m ∈ lastWins members) : m ∈ members := by
  obtain ⟨t, -, hfind⟩ := List.mem_filterMap.mp h
  exact List.mem_reverse.mp (List.mem_of_find?_eq_some hfind)

theorem entriesOf_of_nodup {members : List (Text × Value)}
    (h : (members.map Prod.fst).Nodup) :
    entriesOf (members.map fun m => (str m.1, m.2)) = members.map fun m => (str m.1, m.2) := by
  induction members using List.reverseRecOn with
  | nil => rfl
  | append_singleton members m ih =>
    rw [List.map_append, List.nodup_append] at h
    have hfresh : ∀ k ∈ (members.map fun m => (str m.1, m.2)).map Prod.fst,
        sameKey k (str m.1) = false := by
      intro k hk
      simp only [List.map_map, List.mem_map, Function.comp_apply] at hk
      obtain ⟨m', hm', rfl⟩ := hk
      rw [sameKey_str, isText]
      exact beq_false_of_ne (h.2.2 _ (List.mem_map_of_mem hm') _ (by simp))
    rw [List.map_append, List.map_singleton, entriesOf_concat, ih h.1, Json.insert_of_fresh hfresh]

mutual

theorem plain_eq_normal : ∀ v : Value, v.plain = v.normal
  | map _ es => by rw [plain, normal, plainEntries_eq_normalMembers es, entriesOf_eq_lastWins]
  | list xs | tuple xs => by rw [plain, normal, plainItems_eq_normalItems xs]
  | bytes _ | range _ => rfl
  | undefined | null | bool _ | int _ | float _ | str _ | set _ => rfl

theorem plainItems_eq_normalItems : ∀ xs : List Value, plainItems xs = normalItems xs
  | [] => rfl
  | x :: xs => by
    have hx := plain_eq_normal x
    have hxs := plainItems_eq_normalItems xs
    cases x <;> simp [plainItems, normalItems, isUndefined, ← hx, hxs, plain]

theorem plainEntries_eq_normalMembers : ∀ es : List (Value × Value),
    plainEntries es = (normalMembers es).map fun m => (str m.1, m.2)
  | [] => rfl
  | (k, v) :: es => by
    have hv := plain_eq_normal v
    have hes := plainEntries_eq_normalMembers es
    cases v <;> simp [plainEntries, normalMembers, isUndefined, ← hv, hes, plain]

end

end Value

namespace Json

/-! ## What normal forms are made of -/

/-- The values that normal forms are made of, sets among them. The keys of a map are texts that
differ. -/
inductive Plain : Value → Prop
  | null : Plain .null
  | bool (b : Bool) : Plain (.bool b)
  | int (i : Int) : Plain (.int i)
  | float (x : Double) : Plain (.float x)
  | str (t : Text) : Plain (.str t)
  | set (item : Option Value) : Plain (.set item)
  | list {xs : List Value} (h : ∀ x ∈ xs, Plain x) : Plain (.list xs)
  | map {es : Entries} (hkeys : ∀ e ∈ es, ∃ t : Text, e.1 = .str t)
    (hmerged : Value.entriesOf es = es) (h : ∀ e ∈ es, Plain e.2) : Plain (.map false es)

mutual

theorem plain_normal : ∀ {v : Value}, v.isUndefined = false → Plain v.normal
  | .map _ es, _ => by
    rw [Value.normal]
    refine .map ?_ (Value.entriesOf_of_nodup ?_) ?_
    · exact List.forall_mem_map.mpr fun m _ => ⟨m.1, rfl⟩
    · rw [Value.keys_lastWins]
      exact Text.nodup_eraseDups _
    · exact List.forall_mem_map.mpr fun m hm =>
        plain_normalMembers (Value.mem_of_mem_lastWins hm)
  | .list _, _ | .tuple _, _ => .list fun _ => plain_normalItems
  | .bytes _, _ | .range _, _ => .list (List.forall_mem_map.mpr fun _ _ => .int _)
  | .null, _ => .null
  | .bool b, _ => .bool b
  | .int i, _ => .int i
  | .float x, _ => .float x
  | .str t, _ => .str t
  | .set item, _ => .set item
  | .undefined, h => by cases h

theorem plain_normalItems : ∀ {xs : List Value} {y : Value}, y ∈ Value.normalItems xs → Plain y
  | x :: xs, y, h => by
    have hx := @plain_normal x
    have hxs := @plain_normalItems xs y
    cases x with
    | undefined =>
      rcases List.mem_cons.mp h with rfl | h
      · exact .null
      · exact hxs h
    | _ =>
      rcases List.mem_cons.mp h with rfl | h
      · exact hx rfl
      · exact hxs h

theorem plain_normalMembers : ∀ {es : List (Value × Value)} {m : Text × Value},
    m ∈ Value.normalMembers es → Plain m.2
  | (k, v) :: es, m, h => by
    have hv := @plain_normal v
    have hes := @plain_normalMembers es m
    cases v with
    | undefined => exact hes h
    | _ =>
      rcases List.mem_cons.mp h with rfl | h
      · exact hv rfl
      · exact hes h

end

/-! ## Writing normal forms -/

theorem exists_writeItems_iff {xs : List Value} :
    (∃ ts, writeItems xs = .ok ts) ↔ ∀ x ∈ xs, ∃ t, write x = .ok t := by
  induction xs with
  | nil => simp [writeItems]
  | cons x xs ih =>
    rw [List.forall_mem_cons, ← ih, writeItems]
    cases write x with
    | error f => simp [bind, Except.bind]
    | ok t => cases writeItems xs <;> simp [bind, Except.bind, pure, Except.pure]

theorem exists_writeMembers_iff {es : Entries} :
    (∃ ts, writeMembers es = .ok ts) ↔ ∀ e ∈ es, ∃ t, write e.2 = .ok t := by
  induction es with
  | nil => simp [writeMembers]
  | cons e es ih =>
    rw [List.forall_mem_cons, ← ih, writeMembers]
    cases write e.2 with
    | error f => simp [bind, Except.bind]
    | ok t => cases writeMembers es <;> simp [bind, Except.bind, pure, Except.pure]

theorem exists_map_iff {α β : Type} {f : α → β} {x : Except Fault α} :
    (∃ b, x.map f = .ok b) ↔ ∃ a, x = .ok a := by
  cases x <;> simp [Except.map]

/-- Sets are all that can stand in the way of a normal form. -/
theorem Plain.exists_write_iff {v : Value} (h : Plain v) :
    (∃ t, write v = .ok t) ↔ v.holdsSet = false := by
  induction h with
  | null | bool | int | float | str => simp [write, Value.holdsSet, Value.all, Value.isSet]
  | set item => cases item <;> simp [write, Value.holdsSet, Value.all, Value.isSet]
  | @list xs h ih =>
    rw [write, exists_map_iff, exists_writeItems_iff, forall₂_congr ih]
    simp [Value.holdsSet, Value.all, Value.isSet, Value.allItems_iff]
  | @map es hkeys hmerged h ih =>
    rw [write, exists_map_iff, exists_writeMembers_iff, forall₂_congr ih]
    simp [Value.holdsSet, Value.all, Value.isSet, Value.allMembers_iff]

theorem Plain.write_eq_error_iff {v : Value} (h : Plain v) :
    write v = .error .wrongType ↔ v.holdsSet = true := by
  have hok := h.exists_write_iff
  cases hwrite : write v with
  | ok t =>
    rw [hwrite] at hok
    simp [hok.mp ⟨t, rfl⟩]
  | error f =>
    rw [fault_of_write hwrite, ← Bool.not_eq_false, ← hok, hwrite]
    simp

theorem Plain.spells {v : Value} (h : Plain v) (hset : v.holdsSet = false)
    (hexact : v.all Value.isExact = true) : ∃ s, write v = .ok s ∧ Spells v s := by
  induction h with
  | null => exact ⟨_, rfl, .null⟩
  | bool b => exact ⟨_, rfl, .bool b⟩
  | int i => exact ⟨_, rfl, .int (Value.isExact_int.mp hexact)⟩
  | float x => simp [Value.all, Value.isExact] at hexact
  | str t => exact ⟨_, rfl, .str (readString_jsonString t)⟩
  | set item => cases item <;> simp [Value.holdsSet, Value.all, Value.isSet] at hset
  | @list xs h ih =>
    rw [Value.holdsSet_eq_false, Value.all, Bool.and_eq_true, Value.allItems_iff] at hset
    rw [Value.all, Bool.and_eq_true, Value.allItems_iff] at hexact
    have hitems : ∀ x ∈ xs, ∃ s, write x = .ok s ∧ Spells x s :=
      fun x hx => ih x hx (Value.holdsSet_eq_false.mpr (hset.2 x hx)) (hexact.2 x hx)
    obtain ⟨items, rfl, hwrite, hspells⟩ := writeItems_spells hitems
    exact ⟨_, congrArg (Except.map _) hwrite, .list hspells⟩
  | @map es hkeys hmerged h ih =>
    rw [Value.holdsSet_eq_false, Value.all, Bool.and_eq_true, Value.allMembers_iff] at hset
    rw [Value.all, Bool.and_eq_true, Value.allMembers_iff] at hexact
    have hvalues : ∀ e ∈ es, ∃ s, write e.2 = .ok s ∧ Spells e.2 s :=
      fun e he => ih e he (Value.holdsSet_eq_false.mpr (hset.2 e he)) (hexact.2 e he)
    obtain ⟨members, hentries, hwrite, hquotes, hspells⟩ := writeMembers_spells hkeys hvalues
    refine ⟨_, congrArg (Except.map _) hwrite, ?_⟩
    have hmap := @Spells.map members [] [] (List.forall_mem_nil _) (List.forall_mem_nil _) hquotes
      hspells
    rwa [hentries, hmerged, List.append_nil] at hmap

end Json

/-! ## Exact values -/

namespace Value

mutual

theorem all_normal : ∀ v : Value, v.all isExact = true → v.normal.all isExact = true
  | map _ es => by
    intro h
    refine Bool.and_eq_true_iff.mpr ⟨rfl, allMembers_iff.mpr (List.forall_mem_map.mpr ?_)⟩
    intro m hm
    exact all_normalMembers (Bool.and_eq_true_iff.mp h).2 (mem_of_mem_lastWins hm)
  | list xs | tuple xs => by
    intro h
    refine Bool.and_eq_true_iff.mpr ⟨rfl, allItems_iff.mpr ?_⟩
    exact fun x => all_normalItems (Bool.and_eq_true_iff.mp h).2
  | bytes os => by
    intro _
    refine Bool.and_eq_true_iff.mpr ⟨rfl, allItems_iff.mpr (List.forall_mem_map.mpr ?_)⟩
    refine fun o _ => isExact_int.mpr ?_
    calc (o.toNat : Int).natAbs < 2 ^ 8 := o.toNat_lt
      _ ≤ 10 ^ 3 := by decide
      _ ≤ 10 ^ Text.maxDigits := Nat.pow_le_pow_right (by decide) (by decide)
  | range n => by
    intro h
    refine Bool.and_eq_true_iff.mpr ⟨rfl, allItems_iff.mpr (List.forall_mem_map.mpr ?_)⟩
    refine fun i hi => isExact_int.mpr ?_
    exact (List.mem_range.mp hi).trans_le (isExact_range.mp h)
  | undefined | null | bool _ | int _ | float _ | str _ | set _ => by
    intro h
    simpa only [normal] using h

theorem all_normalItems : ∀ {xs : List Value} {y : Value}, allItems isExact xs = true →
    y ∈ normalItems xs → y.all isExact = true
  | x :: xs, y, hall, h => by
    obtain ⟨hx, hxs⟩ := Bool.and_eq_true_iff.mp hall
    have hfirst := all_normal x hx
    have hothers := @all_normalItems xs y hxs
    cases x with
    | undefined =>
      rcases List.mem_cons.mp h with rfl | h
      · rfl
      · exact hothers h
    | _ =>
      rcases List.mem_cons.mp h with rfl | h
      · exact hfirst
      · exact hothers h

theorem all_normalMembers : ∀ {es : List (Value × Value)} {m : Text × Value},
    allMembers isExact es = true → m ∈ normalMembers es → m.2.all isExact = true
  | (k, v) :: es, m, hall, h => by
    obtain ⟨hv, hes⟩ := Bool.and_eq_true_iff.mp hall
    have hfirst := all_normal v hv
    have hothers := @all_normalMembers es m hes
    cases v with
    | undefined => exact hothers h
    | _ =>
      rcases List.mem_cons.mp h with rfl | h
      · exact hfirst
      · exact hothers h

end

end Value

/-- **JSON denotes normal forms.** Let the machine be able to show the value. Then it has a JSON
text, unless it is undefined or a set is left in its normal form, and then the fault is that of a
wrong type. If its numbers are integers that can be read, its text is read as its normal form. -/
theorem json_denotes_normal_form (v : Value) (machine : Machine) (run : Run)
    (hnesting : v.nesting ≤ machine.nesting) (hdigits : v.digits ≤ machine.digits) :
    ((Collection.json v).perform machine run = (.error .wrongType, run) ↔
      v.isUndefined = true ∨ v.normal.holdsSet = true) ∧
    (v.isUndefined = false → v.normal.holdsSet = false → v.all Value.isExact = true →
      ∃ t, (Collection.json v).perform machine run = (.ok t, run) ∧
        Json.read t = some v.normal) := by
  have hjson : (Collection.json v).perform machine run =
      (Gen.ofExcept (Json.write v.normal)).perform machine run := by
    rw [Collection.json, Gen.perform_walk ⟨hnesting, hdigits⟩, Json.render, Value.plain_eq_normal]
  have hfault : (Gen.fail .wrongType : Gen Text).perform machine run = (.error .wrongType, run) :=
    Gen.perform_fail (by simp [Fault.subject?])
  rw [hjson]
  cases hundefined : v.isUndefined with
  | true =>
    obtain rfl : v = .undefined := by cases v <;> first | rfl | cases hundefined
    simp [Value.normal, Json.write, Gen.ofExcept, hfault]
  | false =>
    have hplain := Json.plain_normal hundefined
    refine ⟨?_, fun _ hset hexact => ?_⟩
    · rw [← hplain.write_eq_error_iff]
      cases hwrite : Json.write v.normal with
      | ok t => simp [Gen.ofExcept]
      | error f => simp [Gen.ofExcept, Json.fault_of_write hwrite, hfault]
    · obtain ⟨s, hwrite, hspells⟩ := hplain.spells hset (Value.all_normal v hexact)
      rw [hwrite]
      exact ⟨s, rfl, Json.read_spells hspells⟩

/-- A set under a key that comes again does no harm, and one behind it does. The undefined member is
dropped before it could replace anything. -/
theorem json_denotes_normal_form_of_replaced_set :
    let es : Entries := [(.int 1, .set none), (.str "1", .tuple [.undefined, .bytes [7]]),
      (.str "1", .undefined)]
    let v := Value.map true es
    let w := Value.map false [(.str "1", .list [.null, .list [.int 7]])]
    (v.isUndefined = false ∧ v.normal.holdsSet = false ∧ v.all Value.isExact = true ∧
      ∃ t, (Collection.json v).perform .standard {} = (.ok t, {}) ∧ Json.read t = some w) ∧
    (Collection.json (.list [v, .set none])).perform .standard {} = (.error .wrongType, {}) := by
  intro es v w
  have hnormal : v.normal = w := rfl
  have hread := (json_denotes_normal_form v .standard {} (by decide) (by decide)).2 rfl rfl rfl
  have hfault :=
    (json_denotes_normal_form (.list [v, .set none]) .standard {} (by decide) (by decide)).1
  exact ⟨⟨rfl, rfl, rfl, hnormal ▸ hread⟩, hfault.mpr (.inr rfl)⟩

end CompositeScript
