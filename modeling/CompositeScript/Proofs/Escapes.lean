import CompositeScript.Proofs.Code
import CompositeScript.Proofs.NumberLiterals

/-! Delicate code points in literals and in JSON.

A string literal escapes surrogates and line separators, so a code holds none of them
(`Value.delicate_code`). A JSON string has them as they are, so those in a JSON text are those in
the texts and keys of the value (`Json.delicate_write`). Numbers are ASCII in both. -/

namespace CompositeScript

namespace Text

/-- The surrogates and line separators in a text, in order. -/
def delicate (t : Text) : Text := t.filter CodePoint.isDelicate

def isAscii (t : Text) : Bool := t.all fun c => c.val < 0x80

@[simp] theorem delicate_nil : delicate [] = [] := rfl

@[simp] theorem delicate_append (s t : Text) : delicate (s ++ t) = s.delicate ++ t.delicate :=
  List.filter_append s t

theorem delicate_join {sep : Text} (h : sep.delicate = []) (texts : List Text) :
    (join sep texts).delicate = texts.flatMap delicate := by
  induction texts with
  | nil => rfl
  | cons t texts ih =>
    cases texts with
    | nil => simp [join]
    | cons u texts => rw [join_cons_cons, delicate_append, delicate_append, h, ih]; rfl

theorem hasSurrogate_iff_delicate {t : Text} :
    t.hasSurrogate = false ↔ ∀ c ∈ t.delicate, c.isSurrogate = false := by
  rw [hasSurrogate, List.any_eq_false]
  constructor
  · intro h c hc
    exact Bool.eq_false_iff.mpr (h c (List.mem_of_mem_filter hc))
  · intro h c hc hsurrogate
    have hdelicate : c.isDelicate = true := by simp [CodePoint.isDelicate, hsurrogate]
    rw [h c (List.mem_filter.mpr ⟨hc, hdelicate⟩)] at hsurrogate
    cases hsurrogate

theorem delicate_of_isAscii {t : Text} (h : t.isAscii = true) : t.delicate = [] := by
  apply List.filter_eq_nil_iff.mpr
  intro c hc hdelicate
  have hlt : c.val < 0x80 := by simpa using List.all_eq_true.mp h c hc
  rw [CodePoint.isDelicate_iff] at hdelicate
  omega

/-! ## Numbers -/

@[simp] theorem isAscii_append (s t : Text) : isAscii (s ++ t) = (s.isAscii && t.isAscii) :=
  List.all_append

theorem isAscii_of_isDigit {t : Text} (h : ∀ c ∈ t, c.isDigit = true) : t.isAscii = true := by
  apply List.all_eq_true.mpr
  intro c hc
  have := CodePoint.isDigit_iff.mp (h c hc)
  simp only [decide_eq_true_eq]
  omega

theorem isAscii_ofNat (n : Nat) : (ofNat n).isAscii = true :=
  isAscii_of_isDigit fun _ => isDigit_of_mem_ofNat

theorem isAscii_ofInt (i : Int) : (ofInt i).isAscii = true := by
  cases i with
  | ofNat n => exact isAscii_ofNat n
  | negSucc n =>
    have hminus : isAscii [('-' : CodePoint)] = true := by decide
    exact Bool.and_eq_true_iff.mpr ⟨hminus, isAscii_ofNat (n + 1)⟩

theorem isAscii_zeros (n : Nat) : isAscii (List.replicate n ('0' : CodePoint)) = true := by
  apply isAscii_of_isDigit
  intro c hc
  rw [List.eq_of_mem_replicate hc]
  decide

end Text

namespace Decimal
open Text

theorem isAscii_text (ds : List Digit) : (text ds).isAscii = true :=
  isAscii_of_isDigit fun _ => isDigit_of_mem_text

theorem isAscii_pointed (whole fraction : List Digit) :
    (pointed whole fraction).isAscii = true := by
  unfold pointed
  split
  · exact isAscii_text whole
  · simp only [isAscii_append, isAscii_text]
    decide

theorem isAscii_exponentText (width : Nat) (e : Int) :
    (exponentText width e).isAscii = true := by
  simp only [exponentText, padZeros, isAscii_append, isAscii_zeros, isAscii_ofNat]
  split <;> decide

theorem isAscii_literal (d : Decimal) : d.literal.isAscii = true := by
  simp only [literal]
  split_ifs
  · simp [zeros, isAscii_text, isAscii_zeros]
  · exact isAscii_pointed ..
  · simp only [zeros, isAscii_append, isAscii_text, isAscii_zeros]
    decide
  · simp [isAscii_pointed, isAscii_exponentText]

theorem isAscii_signedLiteral (negative : Bool) (d : Decimal) :
    (d.signedLiteral negative).isAscii = true := by
  unfold signedLiteral
  split
  · rw [isAscii_append, isAscii_literal]
    decide
  · exact isAscii_literal d

theorem isAscii_display (d : Decimal) : d.display.isAscii = true := by
  simp only [display]
  split_ifs
  · simp only [zeros, isAscii_append, isAscii_text, isAscii_zeros]
    decide
  · exact isAscii_pointed ..
  · simp only [zeros, isAscii_append, isAscii_text, isAscii_zeros]
    decide
  · simp [isAscii_pointed, isAscii_exponentText]

end Decimal

theorem Literal.isAscii_double (x : Double) : (double x).isAscii = true := by
  unfold double
  split
  · decide
  split
  · split <;> decide
  split
  · exact Text.isAscii_ofInt _
  · exact Decimal.isAscii_signedLiteral ..

theorem Double.isAscii_display (x : Double) : x.display.isAscii = true := by
  have hsize : Text.isAscii (if x.isInfinite then "inf" else if x.isZero then "0.0"
      else x.shortest.display) = true := by
    split
    · decide
    split
    · decide
    · exact Decimal.isAscii_display _
  unfold display
  dsimp only
  split
  · decide
  split
  · rw [Text.isAscii_append, hsize]
    decide
  · exact hsize

theorem Json.isAscii_double (x : Double) : (double x).isAscii = true := by
  unfold double
  split
  · decide
  split
  · split <;> decide
  · exact Double.isAscii_display x

/-! ## Strings -/

theorem Literal.delicate_unitEscape {c : CodePoint} (h : c.val < 0x10000) :
    (unitEscape c).delicate = [] := by
  have hdigit : ∀ d < 16, (CodePoint.ofChar (Nat.digitChar d)).val < 0x80 := by decide
  apply Text.delicate_of_isAscii
  rw [unitEscape_eq, Text.hex_four h]
  simp only [Text.isAscii, List.all_cons, List.all_nil]
  rw [decide_eq_true (hdigit _ (by omega)), decide_eq_true (hdigit _ (by omega)),
    decide_eq_true (hdigit _ (by omega)), decide_eq_true (hdigit _ (by omega))]
  decide

theorem Literal.delicate_escapePoint (c : CodePoint) : (escapePoint c).delicate = [] := by
  rcases escapePoint_cases c with ⟨d, hd, -, hlt, -⟩ | ⟨he, hc⟩ | ⟨he, -, -, -, hc⟩
  · rw [hd]
    apply Text.delicate_of_isAscii
    simp [Text.isAscii, hlt]
  · rw [he]
    exact delicate_unitEscape hc
  · simp [he, Text.delicate, hc]

theorem Literal.delicate_string (t : Text) : (string t).delicate = [] := by
  have hescape : (escape t).delicate = [] := by
    rw [escape, Text.delicate, List.filter_flatMap]
    exact List.flatMap_eq_nil_iff.mpr fun c _ => delicate_escapePoint c
  rw [string, Text.delicate_append, Text.delicate_append, hescape]
  decide

theorem Json.delicate_string (t : Text) : (string t).delicate = t.delicate := by
  have hpoint (c : CodePoint) : (escapePoint c).delicate = [c].filter CodePoint.isDelicate := by
    cases hc : c.isDelicate with
    | true => rw [escapePoint_of_delicate hc, Text.delicate]
    | false =>
      rw [escapePoint_of_not_delicate hc, Literal.delicate_escapePoint]
      simp [hc]
  have hpoints : Text.delicate (t.flatMap escapePoint) = t.delicate := by
    induction t with
    | nil => rfl
    | cons c t ih =>
      rw [List.flatMap_cons, Text.delicate_append, ih, hpoint, Text.delicate, Text.delicate,
        ← List.filter_append]
      rfl
  rw [string, Text.delicate_append, Text.delicate_append, hpoints]
  exact List.append_nil _

/-! ## Values -/

namespace Value

mutual

theorem delicate_code : ∀ v : Value, v.code.delicate = []
  | list xs | tuple xs => by
    rw [code, Text.delicate_append, Text.delicate_append, Text.delicate_join (by decide),
      delicate_codes xs]
    decide
  | map _ es => by
    rw [code, Text.delicate_append, Text.delicate_append, Text.delicate_join (by decide),
      delicate_memberCodes es]
    decide
  | int i => Text.delicate_of_isAscii (Text.isAscii_ofInt i)
  | float x => Text.delicate_of_isAscii (Literal.isAscii_double x)
  | str t => Literal.delicate_string t
  | bool true | bool false | undefined | null => by decide
  | set _ | bytes _ | range _ => rfl

theorem delicate_codes : ∀ xs : List Value, (codes xs).flatMap Text.delicate = []
  | [] => rfl
  | x :: xs => by rw [codes, List.flatMap_cons, delicate_code x, delicate_codes xs]; rfl

theorem delicate_memberCodes :
    ∀ es : List (Value × Value), (memberCodes es).flatMap Text.delicate = []
  | [] => rfl
  | (k, v) :: es => by
    rw [memberCodes, List.flatMap_cons, Text.delicate_append, Text.delicate_append,
      Literal.delicate_string, delicate_code v, delicate_memberCodes es]
    decide

end

mutual

/-- The code points of the keys and texts in a value, in order. -/
def points : Value → Text
  | str t => t
  | list xs => itemPoints xs
  | map _ es => memberPoints es
  | _ => []

def itemPoints : List Value → Text
  | [] => []
  | x :: xs => points x ++ itemPoints xs

def memberPoints : List (Value × Value) → Text
  | [] => []
  | (k, v) :: es => k.shown ++ points v ++ memberPoints es

end

end Value

namespace Json

mutual

/-- The surrogates and line separators in a JSON text are those in the keys and texts. -/
theorem delicate_write : ∀ {v : Value} {s : Text}, write v = .ok s → s.delicate = v.points.delicate
  | .list xs, s, h => by
    cases hxs : writeItems xs with
    | error f => simp [write, hxs, Except.map] at h
    | ok ts =>
      obtain rfl : "[" ++ Text.join "," ts ++ "]" = s := by simpa [write, hxs, Except.map] using h
      rw [Text.delicate_append, Text.delicate_append, Text.delicate_join (by decide),
        delicate_writeItems hxs]
      exact List.append_nil _
  | .map r es, s, h => by
    cases hes : writeMembers es with
    | error f => simp [write, hes, Except.map] at h
    | ok ts =>
      obtain rfl : "\x7b" ++ Text.join "," ts ++ "\x7d" = s := by
        simpa [write, hes, Except.map] using h
      rw [Text.delicate_append, Text.delicate_append, Text.delicate_join (by decide),
        delicate_writeMembers hes]
      exact List.append_nil _
  | .int i, s, h => by
    obtain rfl : Text.ofInt i = s := by simpa [write] using h
    exact Text.delicate_of_isAscii (Text.isAscii_ofInt i)
  | .float x, s, h => by
    obtain rfl : double x = s := by simpa [write] using h
    exact Text.delicate_of_isAscii (isAscii_double x)
  | .str t, s, h => by
    obtain rfl : string t = s := by simpa [write] using h
    exact delicate_string t
  | .null, s, h | .bool true, s, h | .bool false, s, h => by
    obtain rfl := Except.ok.inj h
    decide
  | .undefined, s, h | .tuple _, s, h | .set _, s, h | .bytes _, s, h | .range _, s, h => by
    simp [write] at h

theorem delicate_writeItems : ∀ {xs : List Value} {ts : List Text},
    writeItems xs = .ok ts → ts.flatMap Text.delicate = (Value.itemPoints xs).delicate
  | [], ts, h => by
    obtain rfl := Except.ok.inj h
    rfl
  | x :: xs, ts, h => by
    simp only [writeItems, bind, Except.bind] at h
    cases hx : write x with
    | error f => simp [hx] at h
    | ok s =>
      cases hxs : writeItems xs with
      | error f => simp [hx, hxs] at h
      | ok ss =>
        obtain rfl : s :: ss = ts := by simpa [hx, hxs, Pure.pure, Except.pure] using h
        rw [List.flatMap_cons, delicate_write hx, delicate_writeItems hxs, Value.itemPoints,
          Text.delicate_append]

theorem delicate_writeMembers : ∀ {es : List (Value × Value)} {ts : List Text},
    writeMembers es = .ok ts → ts.flatMap Text.delicate = (Value.memberPoints es).delicate
  | [], ts, h => by
    obtain rfl := Except.ok.inj h
    rfl
  | (k, v) :: es, ts, h => by
    simp only [writeMembers, bind, Except.bind] at h
    cases hv : write v with
    | error f => simp [hv] at h
    | ok s =>
      cases hes : writeMembers es with
      | error f => simp [hv, hes] at h
      | ok ss =>
        have hcolon : Text.delicate ":" = [] := by decide
        obtain rfl : (string k.shown ++ ":" ++ s) :: ss = ts := by
          simpa [hv, hes, Pure.pure, Except.pure] using h
        rw [List.flatMap_cons, delicate_writeMembers hes, Value.memberPoints]
        simp only [Text.delicate_append, delicate_string, delicate_write hv, hcolon,
          List.append_nil]

end

end Json

end CompositeScript
