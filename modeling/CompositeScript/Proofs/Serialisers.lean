import CompositeScript.Proofs.RoundTrip

/-! Code and JSON of the same data.

Data can be written as code, by the generator, or as JSON. The two texts differ in white space, in
escapes, and in that JSON merges keys which are shown alike while code repeats them. Both spell the
same value, which is the data made plain: of keys that are shown alike, the first place and the last
value are kept (`Value.plain_map`). So it does not matter in which of the two ways the argument of
an `i18n` call is written. -/

namespace CompositeScript

/-! ## Merged keys -/

namespace Value

theorem sameKey_str (key : Value) (t : Text) : sameKey key (str t) = key.isText t := by
  cases key <;> simp [sameKey, isText, number?]

theorem lookup_cons (t : Text) (e : Value × Value) (es : Entries) :
    lookup t (e :: es) = if e.1.isText t then some e.2 else lookup t es := by
  rw [lookup, List.find?_cons]
  cases e.1.isText t <;> rfl

theorem lookup_insert (key t : Text) (v : Value) (es : Entries) :
    lookup t (insert (str key) v es) = if key = t then some v else lookup t es := by
  have htext {k : Value} (h : k.isText key = true) : k.isText t = (key == t) := by
    cases k with
    | str s => rw [isText, eq_of_beq h]
    | _ => cases h
  induction es with
  | nil => simp [insert, lookup_cons, isText]
  | cons e es ih =>
    rw [insert, sameKey_str]
    split
    · next hkey =>
      rw [lookup_cons, lookup_cons, htext hkey]
      by_cases h : key = t <;> simp [h]
    · next hkey =>
      rw [lookup_cons, lookup_cons, ih]
      by_cases h : key = t
      · subst h
        simp [hkey]
      · simp [h]

theorem entriesOf_concat (es : Entries) (e : Value × Value) :
    entriesOf (es ++ [e]) = insert e.1 e.2 (entriesOf es) := by
  simp [entriesOf]

/-- Keys are kept in the order of their first insertions. -/
theorem keys_entriesOf (insertions : List (Text × Value)) :
    (entriesOf (insertions.map fun i => (str i.1, i.2))).map Prod.fst =
      ((insertions.map Prod.fst).eraseDups).map str := by
  induction insertions using List.reverseRecOn with
  | nil => rfl
  | append_singleton insertions i ih =>
    let texts := insertions.map Prod.fst
    rw [List.map_append, List.map_append, List.map_singleton, List.map_singleton, entriesOf_concat,
      List.eraseDups_append, List.map_append, ← ih]
    by_cases hmem : i.1 ∈ texts
    · have hpresent : ∃ k ∈ (entriesOf (insertions.map fun i => (str i.1, i.2))).map Prod.fst,
          sameKey k (str i.1) = true := by
        rw [ih]
        exact ⟨str i.1, List.mem_map_of_mem (List.mem_eraseDups.mpr hmem), by
          simp [sameKey_str, isText]⟩
      have hnone : [i.1].removeAll texts = [] := by simp [List.removeAll, hmem]
      rw [Json.keys_insert_of_present hpresent, hnone]
      simp
    · have hfresh : ∀ k ∈ (entriesOf (insertions.map fun i => (str i.1, i.2))).map Prod.fst,
          sameKey k (str i.1) = false := by
        rw [ih]
        intro k hk
        obtain ⟨t, ht, rfl⟩ := List.mem_map.mp hk
        rw [sameKey_str, isText]
        exact beq_false_of_ne (fun h => hmem (h ▸ List.mem_eraseDups.mp ht))
      have hone : [i.1].removeAll texts = [i.1] := by simp [List.removeAll, hmem]
      rw [Json.insert_of_fresh hfresh, hone, List.map_append]
      rfl

/-- The last insertion under a key decides its value. -/
theorem lookup_entriesOf (insertions : List (Text × Value)) (t : Text) :
    lookup t (entriesOf (insertions.map fun i => (str i.1, i.2))) =
      (insertions.reverse.find? fun i => i.1 == t).map Prod.snd := by
  induction insertions using List.reverseRecOn with
  | nil => rfl
  | append_singleton insertions i ih =>
    rw [List.map_append, List.map_singleton, entriesOf_concat, lookup_insert, ih,
      List.reverse_append, List.reverse_singleton, List.singleton_append, List.find?_cons]
    by_cases h : i.1 = t
    · simp [h]
    · simp [h, beq_false_of_ne h]

/-- What plain data is made of: the keys as they are shown, each at its first place, with the last
of its values. -/
theorem plain_map {r : Bool} {es : Entries} (h : Json.Data (map r es)) :
    ∃ es', (map r es).plain = map false es' ∧
      es'.map Prod.fst = ((es.map fun e => e.1.shown).eraseDups).map str ∧
      ∀ t, lookup t es' = (es.reverse.find? fun e => e.1.shown == t).map fun e => e.2.plain := by
  cases h with
  | map htag hkeys h =>
    let insertions := es.map fun e => (e.1.shown, e.2.plain)
    have hplain : (map r es).plain =
        map false (entriesOf (insertions.map fun i => (str i.1, i.2))) := by
      rw [plain, plainEntries_eq_map fun e he => (h e he).isUndefined, List.map_map]
      rfl
    refine ⟨_, hplain, ?_, ?_⟩
    · rw [keys_entriesOf, List.map_map]
      rfl
    · intro t
      rw [lookup_entriesOf, ← List.map_reverse, List.find?_map, Option.map_map]
      rfl

end Value

/-! ## JSON of data -/

namespace Json

theorem writeItems_spells {xs : List Value} (h : ∀ x ∈ xs, ∃ s, write x = .ok s ∧ Spells x s) :
    ∃ items : List (Value × Text), items.map Prod.fst = xs ∧
      writeItems xs = .ok (items.map Prod.snd) ∧ ∀ item ∈ items, Spells item.1 item.2 := by
  induction xs with
  | nil => exact ⟨[], rfl, rfl, List.forall_mem_nil _⟩
  | cons x xs ih =>
    obtain ⟨⟨s, hwrite, hspells⟩, hxs⟩ := List.forall_mem_cons.mp h
    obtain ⟨items, rfl, hitems, hall⟩ := ih hxs
    refine ⟨(x, s) :: items, rfl, ?_, List.forall_mem_cons.mpr ⟨hspells, hall⟩⟩
    rw [writeItems, hwrite, hitems]
    rfl

theorem writeMembers_spells {es : Entries} (hkeys : ∀ e ∈ es, ∃ t : Text, e.1 = .str t)
    (h : ∀ e ∈ es, ∃ s, write e.2 = .ok s ∧ Spells e.2 s) :
    ∃ members : List Member, members.map Member.entry = es ∧
      writeMembers es = .ok (members.map (Member.spelled [])) ∧
      (∀ m ∈ members, Quotes m.literal m.key) ∧ ∀ m ∈ members, Spells m.value m.text := by
  induction es with
  | nil => exact ⟨[], rfl, rfl, List.forall_mem_nil _, List.forall_mem_nil _⟩
  | cons e es ih =>
    obtain ⟨⟨t, ht⟩, hkeys⟩ := List.forall_mem_cons.mp hkeys
    obtain ⟨⟨s, hwrite, hspells⟩, hes⟩ := List.forall_mem_cons.mp h
    obtain ⟨members, rfl, hmembers, hquotes, hall⟩ := ih hkeys hes
    refine ⟨⟨t, string t, e.2, s⟩ :: members, ?_, ?_,
      List.forall_mem_cons.mpr ⟨readString_jsonString t, hquotes⟩,
      List.forall_mem_cons.mpr ⟨hspells, hall⟩⟩
    · rw [List.map_cons, Member.entry, ← ht]
    · rw [writeMembers, hwrite, hmembers, ht]
      simp [Member.spelled, Value.shown, bind, Except.bind, pure, Except.pure]

/-- The JSON text of data spells it as plain data. -/
theorem Data.spells_render {v : Value} (h : Data v) : ∃ s, render v = .ok s ∧ Spells v.plain s := by
  induction h with
  | null => exact ⟨_, rfl, .null⟩
  | bool b => exact ⟨_, rfl, .bool b⟩
  | int h => exact ⟨_, rfl, .int h⟩
  | str h => exact ⟨_, rfl, .str (readString_jsonString _)⟩
  | @list xs h ih | @tuple xs h ih =>
    obtain ⟨items, hvalues, hwrite, hspells⟩ := writeItems_spells (List.forall_mem_map.mpr ih)
    refine ⟨"[" ++ Text.join "," (items.map Prod.snd) ++ "]", ?_, ?_⟩
    · rw [render, Value.plain, Value.plainItems_eq_map fun x hx => (h x hx).isUndefined, write]
      exact congrArg (Except.map _) hwrite
    · rw [Value.plain, Value.plainItems_eq_map fun x hx => (h x hx).isUndefined, ← hvalues]
      exact .list hspells
  | @map r es htag hkeys h ih =>
    let plain := es.map fun e => (Value.str e.1.shown, e.2.plain)
    have hplain : (Value.map r es).plain = .map false (Value.entriesOf plain) := by
      rw [Value.plain, Value.plainEntries_eq_map fun e he => (h e he).isUndefined]
    have hkeyed : Keyed (Value.entriesOf plain) :=
      keyed_entriesOf (List.forall_mem_map.mpr fun e he => ⟨_, rfl, hkeys e he⟩)
    -- Keys are merged before they are written: what stands under one comes from some member.
    have hvalue : ∀ e ∈ Value.entriesOf plain, ∃ s, write e.2 = .ok s ∧ Spells e.2 s := by
      intro e he
      obtain ⟨e', he', hvalue⟩ := mem_entriesOf he
      obtain ⟨e'', he'', rfl⟩ := List.mem_map.mp he'
      rw [hvalue]
      exact ih e'' he''
    have htexts : ∀ e ∈ Value.entriesOf plain, ∃ t : Text, e.1 = .str t := by
      intro e he
      obtain ⟨t, ht, -⟩ := hkeyed.texts e.1 (List.mem_map_of_mem he)
      exact ⟨t, ht⟩
    obtain ⟨members, hentries, hwrite, hquotes, hspells⟩ := writeMembers_spells htexts hvalue
    refine ⟨"\x7b" ++ Text.join "," (members.map (Member.spelled [])) ++ "\x7d", ?_, ?_⟩
    · rw [render, hplain, write]
      exact congrArg (Except.map _) hwrite
    · have hmap := @Spells.map members [] [] (List.forall_mem_nil _) (List.forall_mem_nil _) hquotes
        hspells
      rw [hentries, hkeyed.entriesOf_eq, List.append_nil] at hmap
      rwa [hplain]

theorem perform_json {v : Value} (h : Data v) {machine : Machine} (hl : machine.Shows v)
    (run : Run) :
    ∃ s, (Collection.json v).perform machine run = (.ok s, run) ∧ Spells v.plain s := by
  obtain ⟨s, hrender, hspells⟩ := h.spells_render
  refine ⟨s, ?_, hspells⟩
  rw [Collection.json, Gen.perform_walk hl, hrender]
  rfl

end Json

/-! ## The two texts -/

/-- The bounds of the options and of the machine leave room for the value. -/
structure Value.Fits (v : Value) (o : Options) (machine : Machine) (run : Run) : Prop where
  maxDepth : ∀ node ∈ v.nodes (run.depth + 1), node.level ≤ o.maxDepth
  calls : ∀ node ∈ v.nodes (run.depth + 1), node.level ≤ run.depth + machine.calls
  shows : machine.Shows v

section
variable {v : Value} {o : Options} {machine : Machine} {run : Run}

theorem generate_data (h : Json.Data v) (ho : o.Hookless) (hfits : v.Fits o machine run)
    (scope : Scope) : (generate v scope o).perform machine run = (.ok v.code, run) := by
  rw [generate, Gen.perform_bind_ok Gen.perform_read]
  exact generateWithin_code ho h.all_isUntagged hfits.shows hfits.calls hfits.maxDepth scope

/-- The argument of an `i18n` call spells the payload, whether it is code or JSON. -/
theorem perform_i18n {g : Emitter} {r : Bool} {es : Entries} {scope : Scope}
    (htag : (Value.map r es).tag? = some .i18n)
    (h : Json.Data (.map false (Collection.payload es)))
    (hl : machine.Shows (.map false (Collection.payload es)))
    (hg : ∀ child ∈ (Value.map r es).children,
      (g child scope o).perform machine run = (.ok child.code, run)) :
    ∃ argument, (Collection.object g (.map r es) scope o).perform machine run =
        (.ok ("this._i18nText(" ++ argument ++ ")"), run) ∧
      Json.Spells (Value.map false (Collection.payload es)).plain argument := by
  simp only [Collection.object, Collection.i18n, Value.tag?_eq_some_iff.mp htag, Value.entries?,
    if_true]
  rw [← Value.isDynamic]
  cases hdynamic : Value.isDynamic es with
  | true =>
    have hchild := hg (.map false (Collection.payload es))
      (by simp [Value.children, htag, hdynamic])
    refine ⟨_, ?_, h.spells_code⟩
    rw [if_pos rfl, Gen.perform_bind_ok hchild]
    rfl
  | false =>
    obtain ⟨s, hjson, hspells⟩ := Json.perform_json h hl run
    refine ⟨s, ?_, hspells⟩
    rw [if_neg (by simp), Gen.perform_bind_ok hjson]
    rfl

theorem generate_i18n {r : Bool} {es : Entries} (htag : (Value.map r es).tag? = some .i18n)
    (h : Json.Data (.map false (Collection.payload es))) (ho : o.Hookless)
    (hfits : (Value.map r es).Fits o machine run) (scope : Scope) :
    ∃ argument, (generate (.map r es) scope o).perform machine run =
        (.ok ("this._i18nText(" ++ argument ++ ")"), run) ∧
      Json.Spells (Value.map false (Collection.payload es)).plain argument := by
  let inner : Run := { run with depth := run.depth + 1 }
  have hself := (Value.map r es).mem_nodes_self (run.depth + 1)
  have hl : machine.Shows (.map false (Collection.payload es)) := hfits.shows.filter false _
  obtain ⟨n, hn⟩ : ∃ n, machine.calls = n + 1 := by
    have := hfits.calls _ hself
    exact Nat.exists_eq_add_of_le' (by simp only at this; omega)
  have hchild : ∀ child ∈ (Value.map r es).children,
      (generateWithin n child scope o).perform machine inner = (.ok child.code, inner) := by
    intro child hchild
    have hbelow {node : Node} := @Value.mem_nodes_of_child (run.depth + 1) _ _ node hchild
    obtain rfl : child = .map false (Collection.payload es) := by
      simp only [Value.children, htag] at hchild
      split at hchild
      · exact List.mem_singleton.mp hchild
      · cases hchild
    apply generateWithin_code ho h.all_isUntagged hl
    · intro node hnode
      have := hfits.calls node (hbelow hnode)
      simp only [inner]
      omega
    · exact fun node hnode => hfits.maxDepth node (hbelow hnode)
  obtain ⟨argument, hargument, hspells⟩ := perform_i18n htag h hl hchild
  refine ⟨argument, ?_, hspells⟩
  rw [generate, Gen.perform_bind_ok Gen.perform_read, hn, generateWithin,
    route_of_hookless ho (Value.classify_of_i18n htag) (by simp) (by simp), Kind.emit,
    Gen.perform_nested_of_le (hfits.maxDepth _ hself) hargument (by simp)]

end

/-- **Code and JSON of data denote the same.** Let the value be data, and let there be room for it.
Then it can be generated without hooks and written as JSON, and both texts are read as the value
made plain. A map made plain has the texts that its keys are shown as, each once and in the order
they first come in, and under each of them the value that comes last. The argument of an `i18n` call
is read as the payload made plain, whether it is written as code or as JSON. -/
theorem serialisers_agree :
    (∀ (v : Value) (scope : Scope) (o : Options) (machine : Machine) (run : Run), Json.Data v →
      o.Hookless → v.Fits o machine run →
      ∃ code json, (generate v scope o).perform machine run = (.ok code, run) ∧
        (Collection.json v).perform machine run = (.ok json, run) ∧
        Json.read code = some v.plain ∧ Json.read json = some v.plain) ∧
    (∀ (r : Bool) (es : Entries), Json.Data (.map r es) →
      ∃ es', (Value.map r es).plain = .map false es' ∧
        es'.map Prod.fst = ((es.map fun e => e.1.shown).eraseDups).map .str ∧
        ∀ t, Value.lookup t es' =
          (es.reverse.find? fun e => e.1.shown == t).map fun e => e.2.plain) ∧
    (∀ (r : Bool) (es : Entries) (scope : Scope) (o : Options) (machine : Machine) (run : Run),
      (Value.map r es).tag? = some .i18n → Json.Data (.map false (Collection.payload es)) →
      o.Hookless → (Value.map r es).Fits o machine run →
      ∃ argument, (generate (.map r es) scope o).perform machine run =
          (.ok ("this._i18nText(" ++ argument ++ ")"), run) ∧
        Json.read argument = some (Value.map false (Collection.payload es)).plain) := by
  refine ⟨?_, ?_, ?_⟩
  · intro v scope o machine run hdata ho hfits
    obtain ⟨json, hjson, hspells⟩ := Json.perform_json hdata hfits.shows run
    exact ⟨v.code, json, generate_data hdata ho hfits scope, hjson,
      Json.read_spells hdata.spells_code, Json.read_spells hspells⟩
  · intro r es hdata
    exact Value.plain_map hdata
  · intro r es scope o machine run htag hdata ho hfits
    obtain ⟨argument, hgenerate, hspells⟩ := generate_i18n htag hdata ho hfits scope
    exact ⟨argument, hgenerate, Json.read_spells hspells⟩

/-- The two keys are shown alike, in a plain object as in an `i18n` object. -/
theorem serialisers_agree_on_merged_keys :
    let es : Entries := [(.int 1, .str [.ofNat 0x2028]), (.str "1", .tuple [.bool true, .null])]
    let v := Value.map true es
    let label := Value.map false ((.str "type", .str "i18n") :: es)
    let plain := Value.map false [(.str "1", .list [.bool true, .null])]
    (Json.Data v ∧ v.Fits {} .standard {} ∧
      ∃ code json, (generate v .null {}).perform .standard {} = (.ok code, {}) ∧
        (Collection.json v).perform .standard {} = (.ok json, {}) ∧
        Json.read code = some plain ∧ Json.read json = some plain) ∧
    (∃ es', v.plain = .map false es' ∧ es'.map Prod.fst = [.str "1"] ∧
      Value.lookup "1" es' = some (.list [.bool true, .null])) ∧
    (label.tag? = some .i18n ∧ label.Fits {} .standard {} ∧
      ∃ argument, (generate label .null {}).perform .standard {} =
          (.ok ("this._i18nText(" ++ argument ++ ")"), {}) ∧
        Json.read argument = some plain) := by
  intro es v label plain
  have hdata (r : Bool) : Json.Data (.map r es) := by
    refine .map rfl ?_ ?_
    · simp only [es, List.forall_mem_cons]
      exact ⟨by decide, by decide, List.forall_mem_nil _⟩
    · simp only [es, List.forall_mem_cons]
      refine ⟨.str (by decide), .tuple ?_, List.forall_mem_nil _⟩
      simp only [List.forall_mem_cons]
      exact ⟨.bool true, .null, List.forall_mem_nil _⟩
  have hroot : v.children = [.str [.ofNat 0x2028], .tuple [.bool true, .null]] := rfl
  have htuple : (Value.tuple [.bool true, .null]).children = [.bool true, .null] := rfl
  have hscalars : (Value.str [.ofNat 0x2028]).children = [] ∧ (Value.bool true).children = [] ∧
      Value.null.children = [] := ⟨rfl, rfl, rfl⟩
  have hlabel : label.children = [] := rfl
  have hfits : v.Fits {} .standard {} := by
    refine ⟨?_, ?_, by decide⟩ <;> simp [Value.nodes_eq, hroot, htuple, hscalars, Machine.standard]
  have hfits' : label.Fits {} .standard {} := by
    refine ⟨?_, ?_, by decide⟩ <;> simp [Value.nodes_eq, hlabel, Machine.standard]
  obtain ⟨hagree, hplain, hcall⟩ := serialisers_agree
  refine ⟨⟨hdata true, hfits, hagree v .null {} .standard {} (hdata true) (fun _ => rfl) hfits⟩, ?_,
    rfl, hfits', hcall false _ .null {} .standard {} rfl (hdata false) (fun _ => rfl) hfits'⟩
  obtain ⟨es', hes', hkeys, hvalues⟩ := hplain true es (hdata true)
  exact ⟨es', hes', hkeys, hvalues "1"⟩

/-! ## Beyond the limits of the machine -/

theorem Json.data_iterate_list (n : Nat) : Data ((fun w => Value.list [w])^[n] .null) := by
  induction n with
  | zero => exact .null
  | succ n ih =>
    rw [Function.iterate_succ_apply']
    exact .list (List.forall_mem_singleton.mpr ih)

theorem perform_array_error {g : Emitter} {x : Value} {scope : Scope} {o : Options}
    {machine : Machine} {run : Run} {f : Fault}
    (h : (g x scope o).perform machine run = (.error f, run)) :
    (Collection.array g (.list [x]) scope o).perform machine run = (.error f, run) := by
  simp only [Collection.array, Value.elements?, Value.items?, List.mapM_cons]
  exact Gen.perform_bind_error (Gen.perform_bind_error h)

/-- Lists in each other, more of them than calls may be open. -/
theorem generateWithin_iterate_list {n m : Nat} (h : n ≤ m) {o : Options} (ho : o.Hookless)
    (scope : Scope) (machine : Machine) {run : Run} (hrun : 0 < run.depth)
    (hd : run.depth + n ≤ o.maxDepth) :
    (generateWithin n ((fun w => Value.list [w])^[m] .null) scope o).perform machine run =
      (.error .tooDeep, run) := by
  induction n generalizing m run with
  | zero => rfl
  | succ n ih =>
    obtain ⟨m, rfl⟩ := Nat.exists_eq_add_of_le' (show 1 ≤ m by omega)
    let inner : Run := { run with depth := run.depth + 1 }
    -- Each list takes one call, and there are no fewer lists than calls.
    have hitem := @ih m (by omega) inner (by simp [inner]) (by simp only [inner]; omega)
    rw [Function.iterate_succ_apply', generateWithin,
      route_of_hookless ho rfl (by simp) (by simp), Kind.emit, Gen.perform_nested,
      if_neg (by omega), perform_array_error hitem]
    simp [Gen.surfaced, inner, hrun.ne']

theorem perform_generate_iterate_list {m : Nat} (h : Machine.standard.calls ≤ m) {o : Options}
    (ho : o.Hookless) (hd : Machine.standard.calls ≤ o.maxDepth) (scope : Scope) :
    (generate ((fun w => Value.list [w])^[m] .null) scope o).perform .standard {} =
      (.error (.depthExceeded o.maxDepth), {}) := by
  have hcalls : Machine.standard.calls = 299 + 1 := rfl
  rw [hcalls] at h hd
  obtain ⟨m, rfl⟩ := Nat.exists_eq_add_of_le' (show 1 ≤ m by omega)
  have hitem := @generateWithin_iterate_list 299 m (by omega) o ho scope .standard { depth := 1 }
    (by decide) (by simp only; omega)
  rw [generate, Gen.perform_bind_ok Gen.perform_read, hcalls, Function.iterate_succ_apply',
    generateWithin, route_of_hookless ho rfl (by simp) (by simp), Kind.emit, Gen.perform_nested,
    if_neg (by simp only; omega), perform_array_error hitem]
  rfl

/-- An integer that is too long for the machine is written neither as code nor as JSON. -/
theorem perform_long_int {i : Int} (hi : 10 ^ Text.maxDigits ≤ i.natAbs) :
    (generate (.int i) .null {}).perform .standard {} = (.error .tooLong, {}) ∧
      (Collection.json (.int i)).perform .standard {} = (.error .tooLong, {}) := by
  have hdigits : Machine.standard.digits < (Value.int i).digits :=
    Value.lt_digits_int (n := Text.maxDigits) (by decide) hi
  have hobstacle : Machine.standard.obstacle? (.int i) = some .tooLong :=
    Machine.obstacle?_of_digits (by simp [Value.nesting, Machine.standard]) hdigits
  have hcalls : Machine.standard.calls = 299 + 1 := rfl
  refine ⟨?_, Gen.perform_walk_of_obstacle hobstacle⟩
  rw [generate, Gen.perform_bind_ok Gen.perform_read, hcalls, generateWithin,
    route_of_hookless (fun _ => rfl) rfl (by simp) (by simp)]
  exact Gen.perform_nested_of_le (by decide) (Gen.perform_walk_of_obstacle hobstacle) (by simp)

/-- A value that nests more deeply than the machine can follow is refused whatever bound is set, and
an integer with too many digits is refused as well. -/
theorem serialisers_stop_at_limits :
    let deep := (fun w => Value.list [w])^[3000] .null
    let long := Value.int (10 ^ Text.maxDigits : Nat)
    (Json.Data deep ∧ (∀ node ∈ deep.nodes 1, node.level ≤ 5000) ∧
      (generate deep .null { maxDepth := 5000 }).perform .standard {} =
        (.error (.depthExceeded 5000), {})) ∧
    ((generate long .null {}).perform .standard {} = (.error .tooLong, {}) ∧
      (Collection.json long).perform .standard {} = (.error .tooLong, {})) := by
  intro deep long
  have hdata : Json.Data deep := Json.data_iterate_list 3000
  have hlevels : ∀ node ∈ deep.nodes 1, node.level ≤ 5000 := by
    intro node hnode
    have hlt := Value.level_lt_of_mem_nodes hdata.all_isUntagged hnode
    rw [Value.nesting_iterate_list] at hlt
    omega
  have hdeep := @perform_generate_iterate_list 3000 (by decide) { maxDepth := 5000 } (fun _ => rfl)
    (by decide) .null
  exact ⟨⟨hdata, hlevels, hdeep⟩, perform_long_int (le_refl _)⟩

end CompositeScript
