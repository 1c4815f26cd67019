import CompositeScript.Proofs.Json.Documents
import CompositeScript.Proofs.Json.Spelling
import CompositeScript.Proofs.Nodes

/-! The code of values without tags, and how it is read back.

`Value.code` is the text that generation comes to on such a value. On data it is JSON again: it
spells the value as plain data (`Data.spells_code`), in which keys that are shown alike are one. A
value that a document denotes is plain data already (`Document.plain_eq`), so it is read back from
its code (`read_code`). -/

namespace CompositeScript

namespace Value

/-! ## Values and their codes -/

mutual

/-- Every value in a value, itself included, passes the test. Keys are not tested. -/
def all (p : Value → Bool) : Value → Bool
  | list xs => p (list xs) && allItems p xs
  | tuple xs => p (tuple xs) && allItems p xs
  | set (some x) => p (set (some x)) && all p x
  | map r es => p (map r es) && allMembers p es
  | v => p v

/-- Every value in the items passes the test. -/
def allItems (p : Value → Bool) : List Value → Bool
  | [] => true
  | x :: xs => all p x && allItems p xs

/-- Every value in the members passes the test. -/
def allMembers (p : Value → Bool) : List (Value × Value) → Bool
  | [] => true
  | (_, v) :: es => all p v && allMembers p es

end

/-- A composite value, and no map with a tag. -/
def isUntagged : Value → Bool
  | set _ | bytes _ | range _ => false
  | v => v.tag?.isNone

/-- Neither a double nor a map with a tag. -/
def isDatum : Value → Bool
  | float _ => false
  | v => v.tag?.isNone

mutual

/-- The code of a value that holds nothing tagged. -/
def code : Value → Text
  | undefined => "undefined"
  | null => "null"
  | bool b => Literal.boolean b
  | int i => Text.ofInt i
  | float x => Literal.double x
  | str t => Literal.string t
  | list xs | tuple xs => "[" ++ Text.join "," (codes xs) ++ "]"
  | map _ es => "\x7b" ++ Text.join ",\n" (memberCodes es) ++ "\x7d"
  | set _ | bytes _ | range _ => []

/-- The codes of the items. -/
def codes : List Value → List Text
  | [] => []
  | x :: xs => code x :: codes xs

/-- The codes of the members, each with its key. -/
def memberCodes : List (Value × Value) → List Text
  | [] => []
  | (k, v) :: es => (Literal.string k.shown ++ ": " ++ code v) :: memberCodes es

end

theorem allItems_iff {p : Value → Bool} {xs : List Value} :
    allItems p xs = true ↔ ∀ x ∈ xs, x.all p = true := by
  induction xs with
  | nil => simp [allItems]
  | cons x xs ih => simp [allItems, ih]

theorem allMembers_iff {p : Value → Bool} {es : Entries} :
    allMembers p es = true ↔ ∀ e ∈ es, e.2.all p = true := by
  induction es with
  | nil => simp [allMembers]
  | cons e es ih => simp [allMembers, ih]

theorem codes_eq_map (xs : List Value) : codes xs = xs.map code := by
  induction xs with
  | nil => rfl
  | cons x xs ih => simp [codes, ih]

theorem memberCodes_eq_map (es : Entries) :
    memberCodes es = es.map fun e => Literal.string e.1.shown ++ ": " ++ e.2.code := by
  induction es with
  | nil => rfl
  | cons e es ih => simp [memberCodes, ih]

end Value

namespace Json

/-! ## Data -/

/-- The values whose code is JSON: neither doubles nor tags stand in them, their integers are short
enough to be read, and their texts hold no surrogate pair. -/
inductive Data : Value → Prop
  | null : Data .null
  | bool (b : Bool) : Data (.bool b)
  | int {i : Int} (h : i.natAbs < 10 ^ Text.maxDigits) : Data (.int i)
  | str {t : Text} (h : t.Unpaired) : Data (.str t)
  | list {xs : List Value} (h : ∀ x ∈ xs, Data x) : Data (.list xs)
  | tuple {xs : List Value} (h : ∀ x ∈ xs, Data x) : Data (.tuple xs)
  | map {r : Bool} {es : Entries} (htag : (Value.map r es).tag? = none)
    (hkeys : ∀ e ∈ es, e.1.shown.Unpaired) (h : ∀ e ∈ es, Data e.2) : Data (.map r es)

theorem Data.isUndefined {v : Value} (h : Data v) : v.isUndefined = false := by
  cases h <;> rfl

theorem Document.isUndefined {v : Value} (h : Document v) : v.isUndefined = false := by
  cases h <;> rfl

theorem quotes_string {t : Text} (h : t.Unpaired) : Quotes (Literal.string t) t := by
  intro rest
  rw [readString_string, Text.fused_of_unpaired h]

end Json

/-! ## Plain data -/

theorem Value.plainItems_eq_map {xs : List Value} (h : ∀ x ∈ xs, x.isUndefined = false) :
    plainItems xs = xs.map plain := by
  induction xs with
  | nil => rfl
  | cons x xs ih =>
    obtain ⟨hx, hxs⟩ := List.forall_mem_cons.mp h
    simp [plainItems, hx, ih hxs]

theorem Value.plainEntries_eq_map {es : Entries} (h : ∀ e ∈ es, e.2.isUndefined = false) :
    plainEntries es = es.map fun e => (str e.1.shown, e.2.plain) := by
  induction es with
  | nil => rfl
  | cons e es ih =>
    obtain ⟨he, hes⟩ := List.forall_mem_cons.mp h
    simp [plainEntries, he, ih hes]

namespace Json

/-- What a document denotes is plain data already. -/
theorem Document.plain_eq {v : Value} (h : Document v) : v.plain = v := by
  induction h with
  | null | bool | int | float | str => rfl
  | @list xs h ih =>
    rw [Value.plain, Value.plainItems_eq_map fun x hx => (h x hx).isUndefined]
    exact congrArg Value.list ((List.map_congr_left ih).trans xs.map_id')
  | @map es keys h ih =>
    have hentry (e : Value × Value) (he : e ∈ es) : (Value.str e.1.shown, e.2.plain) = e := by
      obtain ⟨t, ht, -⟩ := keys.texts e.1 (List.mem_map_of_mem he)
      rw [ih e he, ht, Value.shown, ← ht]
    rw [Value.plain, Value.plainEntries_eq_map fun e he => (h e he).isUndefined,
      List.map_congr_left hentry, List.map_id', keys.entriesOf_eq]

theorem Document.data {v : Value} (hd : Document v) (hv : v.all Value.isDatum = true) : Data v := by
  induction hd with
  | null => exact .null
  | bool b => exact .bool b
  | int h => exact .int h
  | float x => simp [Value.all, Value.isDatum] at hv
  | str h => exact .str h
  | list h ih =>
    have hdata := Value.allItems_iff.mp (Bool.and_eq_true_iff.mp hv).2
    exact .list fun x hx => ih x hx (hdata x hx)
  | map keys h ih =>
    obtain ⟨htag, hes⟩ := Bool.and_eq_true_iff.mp hv
    have hdata := Value.allMembers_iff.mp hes
    refine .map (Option.isNone_iff_eq_none.mp htag) ?_ fun e he => ih e he (hdata e he)
    intro e he
    obtain ⟨t, ht, hpair⟩ := keys.texts e.1 (List.mem_map_of_mem he)
    rw [ht]
    exact hpair

/-- The code of data spells it as plain data. -/
theorem Data.spells_code {v : Value} (h : Data v) : Spells v.plain v.code := by
  induction h with
  | null => exact .null
  | bool b => exact .bool b
  | int h => exact .int h
  | str h => exact .str (quotes_string h)
  | @list xs h ih | @tuple xs h ih =>
    have hspells := @Spells.list (xs.map fun x => (x.plain, x.code)) (List.forall_mem_map.mpr ih)
    simpa [Value.plain, Value.plainItems_eq_map fun x hx => (h x hx).isUndefined, Value.code,
      Value.codes_eq_map, Function.comp_def] using hspells
  | @map r es htag hkeys h ih =>
    let member (e : Value × Value) : Member :=
      ⟨e.1.shown, Literal.string e.1.shown, e.2.plain, e.2.code⟩
    have hspells := @Spells.map (es.map member) " " "\n" (by simp [Text.ofString, isSpace])
      (by simp [Text.ofString, isSpace])
      (List.forall_mem_map.mpr fun e he => quotes_string (hkeys e he)) (List.forall_mem_map.mpr ih)
    have hcode : (Value.map r es).code = "\x7b" ++ Text.join ("," ++ "\n")
        ((es.map member).map (Member.spelled " ")) ++ "\x7d" := by
      rw [Value.code, Value.memberCodes_eq_map, List.map_map]
      simp [Function.comp_def, member, Member.spelled, Text.ofString]
    have hplain : (Value.map r es).plain =
        .map false (Value.entriesOf ((es.map member).map Member.entry)) := by
      rw [Value.plain, Value.plainEntries_eq_map fun e he => (h e he).isUndefined, List.map_map]
      rfl
    rwa [hcode, hplain]

/-- The reader accepts the code of data as a document, white space behind it included. -/
theorem read_code {v : Value} (hd : Document v) (hv : v.all Value.isDatum = true) {rest : Text}
    (hrest : ∀ c ∈ rest, isSpace c = true) : read (v.code ++ rest) = some v := by
  have hread := read_spells_append (hd.data hv).spells_code hrest
  rwa [hd.plain_eq] at hread

end Json

end CompositeScript
