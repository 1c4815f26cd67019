import CompositeScript.Proofs.Code
import CompositeScript.CommandLine

/-! Data through generation and back.

Without hooks, generation comes to `Value.code` on values that hold nothing tagged
(`generate_code`). The values of documents are read back from their code, so generation keeps the
data of a document, and a second run on its own output changes nothing (`document_round_trip`). -/

namespace CompositeScript

namespace Value

theorem isUntagged_of_all {v : Value} (h : v.all isUntagged = true) : v.isUntagged = true := by
  cases v with
  | set item => cases item <;> simp [all, isUntagged] at h
  | list | tuple | map => exact (Bool.and_eq_true_iff.mp h).1
  | _ => exact h

theorem child_of_untagged {v child : Value} (h : v.all isUntagged = true)
    (hchild : child ∈ v.children) : child.all isUntagged = true ∧ child.nesting < v.nesting := by
  cases v with
  | list xs | tuple xs =>
    have hnesting := nestings_le_iff.mp (le_refl (nestings xs)) child hchild
    refine ⟨allItems_iff.mp (Bool.and_eq_true_iff.mp h).2 child hchild, ?_⟩
    simp only [nesting]
    omega
  | map r es =>
    have htag := Option.isNone_iff_eq_none.mp (isUntagged_of_all h)
    simp only [children, htag] at hchild
    obtain ⟨e, he, rfl⟩ := List.mem_map.mp hchild
    have hnesting := (entryNestings_le_iff.mp (le_refl (entryNestings es)) e he).2
    refine ⟨allMembers_iff.mp (Bool.and_eq_true_iff.mp h).2 e he, ?_⟩
    simp only [nesting]
    omega
  | _ => simp [children] at hchild

/-- In a value that holds nothing tagged, no node stands below the nesting of the value. -/
theorem level_lt_of_mem_nodes {v : Value} (hv : v.all isUntagged = true) {level : Nat}
    {node : Node} (h : node ∈ v.nodes level) : node.level < level + v.nesting := by
  induction hsize : sizeOf v using Nat.strong_induction_on generalizing v level with
  | _ n ih =>
    subst hsize
    rw [nodes_eq] at h
    rcases List.mem_cons.mp h with rfl | hbelow
    · have := v.nesting_pos
      simp only
      omega
    · obtain ⟨child, hchild, hnode⟩ := List.mem_flatMap.mp hbelow
      obtain ⟨hall, hlt⟩ := child_of_untagged hv hchild
      have := ih _ (sizeOf_child_lt hchild) hall hnode rfl
      omega

end Value

/-! ## Generation of values without tags -/

section
variable {generate : Emitter} {scope : Scope} {o : Options} {machine : Machine} {run : Run}

theorem perform_array (v : Value) {xs : List Value} (hv : v.elements? = some xs)
    (h : ∀ x ∈ xs, (generate x scope o).perform machine run = (.ok x.code, run)) :
    (Collection.array generate v scope o).perform machine run =
      (.ok ("[" ++ Text.join "," (Value.codes xs) ++ "]"), run) := by
  simp only [Collection.array, hv]
  rw [Gen.perform_bind_ok (Gen.perform_mapM h), Value.codes_eq_map]
  rfl

theorem perform_member {e : Value × Value} (hkey : machine.Shows e.1)
    (h : (generate e.2 scope o).perform machine run = (.ok e.2.code, run)) :
    (Collection.member generate scope o e).perform machine run =
      (.ok (Literal.string e.1.shown ++ ": " ++ e.2.code), run) := by
  have hshown : (Gen.shown e.1).perform machine run = (.ok e.1.shown, run) := Gen.perform_walk hkey
  rw [Collection.member, Gen.perform_bind_ok hshown, Gen.perform_bind_ok h]
  rfl

theorem perform_object {r : Bool} {es : Entries} (htag : (Value.map r es).hasTag .i18n = false)
    (hkeys : ∀ e ∈ es, machine.Shows e.1)
    (h : ∀ e ∈ es, (generate e.2 scope o).perform machine run = (.ok e.2.code, run)) :
    (Collection.object generate (.map r es) scope o).perform machine run =
      (.ok (Value.map r es).code, run) := by
  have hmembers := Gen.perform_mapM fun e he => perform_member (hkeys e he) (h e he)
  simp only [Collection.object, htag, Value.entries?, Bool.false_eq_true, if_false]
  rw [Gen.perform_bind_ok hmembers, Value.code, Value.memberCodes_eq_map]
  rfl

end

/-- Generation without hooks comes to the code of a value that holds nothing tagged, if no node of
it stands below the bounds. -/
theorem generateWithin_code {n : Nat} {v : Value} {o : Options} {machine : Machine} {run : Run}
    (ho : o.Hookless) (hv : v.all Value.isUntagged = true) (hl : machine.Shows v)
    (hn : ∀ node ∈ v.nodes (run.depth + 1), node.level ≤ run.depth + n)
    (hd : ∀ node ∈ v.nodes (run.depth + 1), node.level ≤ o.maxDepth) (scope : Scope) :
    (generateWithin n v scope o).perform machine run = (.ok v.code, run) := by
  induction n generalizing v run with
  | zero =>
    have := hn _ (v.mem_nodes_self (run.depth + 1))
    simp at this
  | succ n ih =>
    let inner : Run := { run with depth := run.depth + 1 }
    have hchild (x : Value) (hx : x ∈ v.children) :
        (generateWithin n x scope o).perform machine inner = (.ok x.code, inner) := by
      obtain ⟨hall, -⟩ := Value.child_of_untagged hv hx
      apply ih hall (hl.child hx)
      · intro node hnode
        have := hn node (Value.mem_nodes_of_child hx hnode)
        simp only [inner]
        omega
      · exact fun node hnode => hd node (Value.mem_nodes_of_child hx hnode)
    have hstep :
        (route (generateWithin n) v scope o).perform machine inner = (.ok v.code, inner) := by
      cases v with
      | undefined | null | bool | float | str =>
        rw [route_of_hookless ho rfl (by simp) (by simp)]
        rfl
      | int i =>
        rw [route_of_hookless ho rfl (by simp) (by simp)]
        exact Gen.perform_walk hl
      | list xs =>
        rw [route_of_hookless ho rfl (by simp) (by simp)]
        exact perform_array (.list xs) rfl hchild
      | tuple xs =>
        rw [route_of_hookless ho rfl (by simp) (by simp)]
        exact perform_array (.tuple xs) rfl hchild
      | map r es =>
        have htag := Option.isNone_iff_eq_none.mp (Value.isUntagged_of_all hv)
        have hi18n : (Value.map r es).hasTag .i18n = false :=
          Value.hasTag_eq_false (by simp [htag])
        rw [route_of_hookless ho (Value.classify_of_untagged htag) (by simp) (by simp)]
        apply perform_object hi18n fun e he => (hl.entry he).1
        exact fun e he => hchild e.2 (by simpa [Value.children, htag] using ⟨e.1, he⟩)
      | set | bytes | range => cases Value.isUntagged_of_all hv
    have hself := hd _ (v.mem_nodes_self (run.depth + 1))
    rw [generateWithin, Gen.perform_nested_of_le (by simpa using hself) hstep (by simp)]

theorem generate_code {v : Value} {o : Options} {machine : Machine} {run : Run} (ho : o.Hookless)
    (hv : v.all Value.isUntagged = true) (hcalls : v.nesting ≤ machine.calls)
    (hl : machine.Shows v) (hd : run.depth + v.nesting ≤ o.maxDepth) (scope : Scope) :
    (generate v scope o).perform machine run = (.ok v.code, run) := by
  rw [generate, Gen.perform_bind_ok Gen.perform_read]
  apply generateWithin_code ho hv hl
  · intro node hnode
    have := Value.level_lt_of_mem_nodes hv hnode
    omega
  · intro node hnode
    have := Value.level_lt_of_mem_nodes hv hnode
    omega

theorem Json.Data.all_isUntagged {v : Value} (h : Json.Data v) :
    v.all Value.isUntagged = true := by
  induction h with
  | null | bool | int | str => rfl
  | list h ih | tuple h ih => exact Bool.and_eq_true_iff.mpr ⟨rfl, Value.allItems_iff.mpr ih⟩
  | map htag hkeys h ih =>
    refine Bool.and_eq_true_iff.mpr ⟨?_, Value.allMembers_iff.mpr ih⟩
    exact Option.isNone_iff_eq_none.mpr htag

theorem Json.Document.digits_le {v : Value} (h : Json.Document v) :
    v.digits ≤ Text.maxDigits := by
  induction h with
  | int h =>
    rw [Value.digits]
    exact (Text.length_ofNat_le_iff (by decide)).mpr h
  | list h ih => exact Value.itemDigits_le_iff.mpr ih
  | map keys h ih =>
    refine Value.entryDigits_le_iff.mpr fun e he => ⟨?_, ih e he⟩
    obtain ⟨t, ht, -⟩ := keys.texts e.1 (List.mem_map_of_mem he)
    simp [ht, Value.digits]
  | null | bool | float | str => simp [Value.digits]

/-! ## The round trip -/

namespace CommandLine

/-- The command that generates prints the code of the data that a document denotes. -/
theorem Command.answer_generate {t : Text} {v : Value} (hread : Json.read t = some v)
    (hd : Json.Document v) (hv : v.all Value.isDatum = true) {maxDepth : Int}
    (hdepth : v.nesting ≤ maxDepth) (hcalls : v.nesting ≤ Machine.standard.calls)
    (source : Text) (strictSlots : Bool) :
    (Command.generate source maxDepth strictSlots).answer (some t) =
      .ok ⟨0, v.code ++ "\n", []⟩ := by
  have hl : Machine.standard.Shows v := ⟨hcalls.trans (by decide), hd.digits_le⟩
  have hdocument : readDocument (some t) = .ok v := by
    simp [readDocument, Json.read_eq_some.mp hread, hl.nesting]
  let o : Options := { maxDepth, policy := if strictSlots then "fail" else "degrade" }
  have hgenerate := @generate_code v o .standard {} (fun _ => rfl) (hd.data hv).all_isUntagged
    hcalls hl (by simpa [o] using hdepth) .null
  have hresult : (CompositeScript.generate v .null o).result.result = .ok v.code := by
    rw [Gen.result, Gen.outcome, hgenerate]
  simp only [answer, hdocument]
  rw [hresult]
  rfl

theorem parse_generate_dash : parse ["generate", "-"] = some (.generate "-" 128 false) := by
  decide +kernel

end CommandLine

/-- **Data survives generation.** Let a document without surrogates denote data. Generation without
hooks comes to a text that denotes the same data, whatever the scope and the collaborators are, if
the data nests no more deeply than the options and the machine allow, and holds no longer integers
than the machine writes; and the command line program prints what it prints when it is given its own
output. -/
theorem document_round_trip {t : Text} {v : Value} (ht : t.hasSurrogate = false)
    (hread : Json.read t = some v) (hv : v.all Value.isDatum = true) :
    (∀ (scope : Scope) (o : Options) (machine : Machine) (run : Run), o.Hookless →
      v.nesting ≤ machine.calls → v.nesting ≤ machine.nesting → v.digits ≤ machine.digits →
      run.depth + v.nesting ≤ o.maxDepth →
      ∃ text, (generate v scope o).perform machine run = (.ok text, run) ∧
        Json.read text = some v) ∧
    (v.nesting ≤ 128 → ∃ text,
      CommandLine.run ["generate", "-"] (fun _ => some t) = .ok ⟨0, text ++ "\n", []⟩ ∧
      CommandLine.run ["generate", "-"] (fun _ => some (text ++ "\n")) =
        .ok ⟨0, text ++ "\n", []⟩) := by
  have hd := Json.read_document ht hread
  constructor
  · intro scope o machine run ho hcalls hnesting hdigits hdepth
    refine ⟨v.code, generate_code ho (hd.data hv).all_isUntagged hcalls ⟨hnesting, hdigits⟩ hdepth
      scope, ?_⟩
    have := Json.read_code hd hv (show ∀ c ∈ ([] : Text), Json.isSpace c = true by simp)
    rwa [List.append_nil] at this
  · intro hdepth
    have hcalls : v.nesting ≤ Machine.standard.calls := hdepth.trans (by decide)
    have hagain : Json.read (v.code ++ "\n") = some v :=
      Json.read_code hd hv (by simp [Text.ofString, Json.isSpace])
    refine ⟨v.code, ?_, ?_⟩
    · rw [CommandLine.run, CommandLine.parse_generate_dash]
      exact CommandLine.Command.answer_generate hread hd hv (by omega) hcalls _ _
    · rw [CommandLine.run, CommandLine.parse_generate_dash]
      exact CommandLine.Command.answer_generate hagain hd hv (by omega) hcalls _ _

/-- The key holds the first half of a surrogate pair, and the text a whole one. -/
theorem document_round_trip_half_pair :
    Text.hasSurrogate "\x7b\"\\ud83d\": [-12, \"\\ud83d\\ude00\"]\x7d" = false ∧
    Json.read "\x7b\"\\ud83d\": [-12, \"\\ud83d\\ude00\"]\x7d" =
      some (.map false [(.str [.ofNat 0xD83D], .list [.int (-12), .str [.ofNat 0x1F600]])]) ∧
    ∃ text,
      (generate (.map false [(.str [.ofNat 0xD83D], .list [.int (-12), .str [.ofNat 0x1F600]])])
        .null {}).perform .standard {} = (.ok text, {}) ∧
      Json.read text =
        some (.map false [(.str [.ofNat 0xD83D], .list [.int (-12), .str [.ofNat 0x1F600]])]) := by
  have ht : Text.hasSurrogate "\x7b\"\\ud83d\": [-12, \"\\ud83d\\ude00\"]\x7d" = false := by decide
  have hread : Json.read "\x7b\"\\ud83d\": [-12, \"\\ud83d\\ude00\"]\x7d" =
      some (.map false [(.str [.ofNat 0xD83D], .list [.int (-12), .str [.ofNat 0x1F600]])]) := by
    cbv
  obtain ⟨hgenerate, -⟩ := document_round_trip ht hread (by decide)
  refine ⟨ht, hread, hgenerate .null {} .standard {} (fun _ => rfl) ?_ ?_ ?_ ?_⟩ <;> decide

end CompositeScript
