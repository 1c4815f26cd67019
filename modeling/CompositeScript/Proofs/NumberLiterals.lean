import CompositeScript.Proofs.Text
import CompositeScript.Double.Reading
import CompositeScript.Fragment.Lexeme
import CompositeScript.Literal

/-! Number literals, and the numbers that they denote.

A literal of the language is read by its parts (`NumberLiteral.ofText?`): a sign, the digits before
and behind its point, and its exponent. It is canonical if no zero of it could be left out, and then
it is one token of the grammar of fragments. The literal of a decimal is canonical, it denotes the
number that the decimal stands for, and the place of the point decides its notation
(`Decimal.exists_layout`). -/

namespace CompositeScript

/-- A number literal by its parts: the digits before and behind the point, none behind it if there
is no point, and the exponent with its sign. -/
structure NumberLiteral where
  negative : Bool
  whole : Text
  fraction : Text
  exponent : Option (Bool × Text)
  deriving DecidableEq, Repr

namespace NumberLiteral

/-- A minus sign at the front, and the text behind it. -/
def splitMinus (t : Text) : Bool × Text :=
  if t.startsWith "-" then (true, t.drop 1) else (false, t)

/-- The digits behind a point at the front, and the text behind them. -/
def splitFraction (t : Text) : Text × Text :=
  if t.startsWith "." then Double.splitDigits (t.drop 1) else ([], t)

/-- The exponent that a text is. -/
def exponent? : Text → Option (Bool × Text)
  | [] => none
  | c :: t =>
    let (minus, t) := Double.splitSign t
    let (ds, rest) := Double.splitDigits t
    if (c = 'e' || c = 'E') && !ds.isEmpty && rest.isEmpty then some (minus, ds) else none

/-- The literal that a text is. A point may stand at either end of the digits, and a zero at their
front only if it is alone there. -/
def ofText? (t : Text) : Option NumberLiteral :=
  let (negative, t) := splitMinus t
  let (whole, t) := Double.splitDigits t
  let (fraction, t) := splitFraction t
  if (whole ++ fraction).isEmpty || (whole.startsWith "0" && whole != "0") then none
  else if t.isEmpty then some ⟨negative, whole, fraction, none⟩
  else (exponent? t).map fun e => ⟨negative, whole, fraction, some e⟩

/-- The power of ten that the exponent names. -/
def power (l : NumberLiteral) : Int :=
  l.exponent.elim 0 fun e => if e.1 then -(Text.toNat e.2 : Int) else Text.toNat e.2

/-- The number that a literal denotes, its sign apart. -/
def size (l : NumberLiteral) : ℚ :=
  (Text.toNat l.whole + Text.toNat l.fraction / 10 ^ l.fraction.length) * 10 ^ l.power

/-- The number that a literal denotes. -/
def value (l : NumberLiteral) : ℚ := if l.negative then -l.size else l.size

/-- The sign of a literal as it is written. -/
def signText (l : NumberLiteral) : Text := if l.negative then "-" else []

/-- The fraction of a literal as it is written. -/
def fractionText (l : NumberLiteral) : Text :=
  if l.fraction.isEmpty then [] else "." ++ l.fraction

/-- The exponent of a literal as it is written, with a sign of its own. -/
def exponentText (l : NumberLiteral) : Text :=
  l.exponent.elim [] fun e => (if e.1 then "e-" else "e+") ++ e.2

/-- A literal as it is written. -/
def text (l : NumberLiteral) : Text :=
  l.signText ++ (l.whole ++ (l.fractionText ++ l.exponentText))

/-- No zero could be left out: none stands at the front of other digits, none at the end of a
fraction and none at the front of an exponent, and before an exponent stands one digit, which is not
zero. -/
structure Canonical (l : NumberLiteral) : Prop where
  whole_digits : ∀ c ∈ l.whole, c.isDigit = true
  whole_ne_nil : l.whole ≠ []
  whole_leading : l.whole.head? = some ('0' : CodePoint) → l.whole = "0"
  fraction_digits : ∀ c ∈ l.fraction, c.isDigit = true
  fraction_trailing : l.fraction.getLast? ≠ some ('0' : CodePoint)
  exponent_digits : ∀ e ∈ l.exponent, ∀ c ∈ e.2, c.isDigit = true
  exponent_ne_nil : ∀ e ∈ l.exponent, e.2 ≠ []
  exponent_leading : ∀ e ∈ l.exponent, e.2.head? ≠ some ('0' : CodePoint)
  mantissa : ∀ e ∈ l.exponent, ∃ c, c ≠ ('0' : CodePoint) ∧ l.whole = [c]

/-- Without an exponent, only the digits on the two sides of the point count. -/
theorem Canonical.plain {negative : Bool} {whole fraction : Text}
    (hwhole : ∀ c ∈ whole, c.isDigit = true) (hne : whole ≠ [])
    (hleading : whole.head? = some ('0' : CodePoint) → whole = "0")
    (hfraction : ∀ c ∈ fraction, c.isDigit = true)
    (htrailing : fraction.getLast? ≠ some ('0' : CodePoint)) :
    Canonical ⟨negative, whole, fraction, none⟩ :=
  ⟨hwhole, hne, hleading, hfraction, htrailing, by simp, by simp, by simp, by simp⟩

/-! ## Reading -/

theorem splitDigits_append {ds rest : Text} (hds : ∀ c ∈ ds, c.isDigit = true)
    (hrest : ∀ c ∈ rest.head?, c.isDigit = false) :
    Double.splitDigits (ds ++ rest) = (ds, rest) := by
  have hstop : rest.takeWhile CodePoint.isDigit = [] ∧ rest.dropWhile CodePoint.isDigit = rest := by
    cases rest with
    | nil => exact ⟨rfl, rfl⟩
    | cons c rest => simp [hrest c rfl]
  simp [Double.splitDigits, List.takeWhile_append_of_pos hds, List.dropWhile_append_of_pos hds,
    hstop]

/-- An exponent starts with its mark. -/
theorem exponentText_cases (l : NumberLiteral) :
    l.exponent = none ∧ l.exponentText = [] ∨
      ∃ e t, l.exponent = some e ∧ l.exponentText = ('e' : CodePoint) :: t := by
  cases hexponent : l.exponent with
  | none => exact .inl ⟨rfl, by simp [exponentText, hexponent]⟩
  | some e =>
    cases hminus : e.1 <;> simp [exponentText, hexponent, hminus, Text.ofString]

theorem text_unsigned {l : NumberLiteral} (hsign : l.negative = false) :
    l.text = l.whole ++ (l.fractionText ++ l.exponentText) := by
  simp [text, signText, hsign]

theorem head?_exponentText (l : NumberLiteral) : ∀ c ∈ l.exponentText.head?, c = 'e' := by
  obtain ⟨-, htext⟩ | ⟨_, t, -, htext⟩ := exponentText_cases l
  · simp [htext]
  · simp [htext, eq_comm]

/-- The digits before the point end at the point, at the mark of an exponent or with the text. -/
theorem head?_fractionText (l : NumberLiteral) :
    ∀ c ∈ (l.fractionText ++ l.exponentText).head?, c = '.' ∨ c = 'e' := by
  intro c hc
  by_cases hfraction : l.fraction = []
  · rw [fractionText, hfraction] at hc
    exact .inr (head?_exponentText l c hc)
  · have hpoint : ('.' : CodePoint) = c := by
      simpa [fractionText, hfraction, Text.ofString] using hc
    exact .inl hpoint.symm

namespace Canonical

variable {l : NumberLiteral}

theorem splitMinus_text (h : l.Canonical) :
    splitMinus l.text = (l.negative, l.whole ++ (l.fractionText ++ l.exponentText)) := by
  cases hnegative : l.negative with
  | true => simp [splitMinus, text, signText, hnegative, Text.ofString]
  | false =>
    obtain ⟨c, w, hw⟩ := List.exists_cons_of_ne_nil h.whole_ne_nil
    have hc : c ≠ '-' := CodePoint.ne_of_isDigit (h.whole_digits c (by simp [hw])) rfl
    simp [splitMinus, text, signText, hnegative, hw, Text.ofString, hc.symm]

theorem exponent?_exponentText (h : l.Canonical) : exponent? l.exponentText = l.exponent := by
  cases hexponent : l.exponent with
  | none => simp [exponentText, hexponent, exponent?]
  | some e =>
    obtain ⟨minus, ds⟩ := e
    have hne : ds ≠ [] := h.exponent_ne_nil _ hexponent
    have hsplit : Double.splitDigits (ds ++ []) = (ds, []) :=
      splitDigits_append (h.exponent_digits _ hexponent) (by simp)
    rw [List.append_nil] at hsplit
    cases minus <;>
      simp [exponentText, hexponent, exponent?, Double.splitSign, Text.ofString, hsplit, hne]

theorem splitFraction_text (h : l.Canonical) :
    splitFraction (l.fractionText ++ l.exponentText) = (l.fraction, l.exponentText) := by
  by_cases hfraction : l.fraction = []
  · have hstart : l.exponentText.startsWith "." = false := by
      cases htext : l.exponentText with
      | nil => rfl
      | cons c t =>
        rw [head?_exponentText l c (by simp [htext])]
        rfl
    simp [splitFraction, fractionText, hfraction, hstart]
  · have hsplit : Double.splitDigits (l.fraction ++ l.exponentText) = _ :=
      splitDigits_append h.fraction_digits fun c hc => by
        rw [head?_exponentText l c hc]
        decide
    simp [splitFraction, fractionText, hfraction, Text.ofString, hsplit]

theorem splitDigits_text (h : l.Canonical) :
    Double.splitDigits (l.whole ++ (l.fractionText ++ l.exponentText)) =
      (l.whole, l.fractionText ++ l.exponentText) := by
  refine splitDigits_append h.whole_digits fun c hc => ?_
  rcases head?_fractionText l c hc with rfl | rfl <;> decide

/-- A canonical literal is read back from its text. -/
theorem ofText?_text (h : l.Canonical) : ofText? l.text = some l := by
  have hzero : (l.whole.startsWith "0" && l.whole != "0") = false := by
    obtain ⟨c, w, hw⟩ := List.exists_cons_of_ne_nil h.whole_ne_nil
    by_cases hc : c = '0'
    · have hwhole := h.whole_leading (by rw [hw, hc]; rfl)
      rw [hwhole]
      decide
    · simp [hw, Text.ofString, Ne.symm hc]
  have hdigits : (l.whole ++ l.fraction).isEmpty = false := by simp [h.whole_ne_nil]
  simp only [ofText?, h.splitMinus_text, h.splitDigits_text, h.splitFraction_text, hzero, hdigits,
    h.exponent?_exponentText, Bool.or_self, Bool.false_eq_true, if_false]
  obtain ⟨hnone, htext⟩ | ⟨e, t, hsome, htext⟩ := exponentText_cases l
  · rw [htext, ← hnone]
    rfl
  · have hl : { l with exponent := some e } = l := by rw [← hsome]
    rw [htext, hsome]
    exact congrArg some hl

end Canonical

/-! ## Scanning -/

section
open Fragment.Lexeme

theorem digitsEnd_of_digits {ds rest : Text} (hds : ∀ c ∈ ds, c.isDigit = true)
    (hrest : ∀ c ∈ rest.head?, c = '.' ∨ c = 'e') (afterDigit : Bool) (n : Nat) :
    digitsEnd CodePoint.isDigit afterDigit n (ds ++ rest) = n + ds.length := by
  induction ds generalizing afterDigit n with
  | nil =>
    cases rest with
    | nil => rfl
    | cons c rest =>
      rcases hrest c rfl with rfl | rfl <;> rfl
  | cons d ds ih =>
    obtain ⟨hd, hds⟩ := List.forall_mem_cons.mp hds
    rw [List.cons_append, digitsEnd, if_pos hd, ih hds, List.length_cons]
    omega

namespace Canonical

variable {l : NumberLiteral}

theorem exponentEnd_exponentText (h : l.Canonical) :
    exponentEnd l.exponentText = l.exponentText.length := by
  cases hexponent : l.exponent with
  | none => simp [exponentText, hexponent, exponentEnd, starts]
  | some e =>
    obtain ⟨minus, ds⟩ := e
    have hlength : ds.length ≠ 0 := by simpa using h.exponent_ne_nil _ hexponent
    have hdigits : digitsEnd CodePoint.isDigit false 0 (ds ++ []) = 0 + ds.length :=
      digitsEnd_of_digits (h.exponent_digits _ hexponent) (by simp) false 0
    rw [List.append_nil, Nat.zero_add] at hdigits
    cases minus <;>
      simp [exponentText, hexponent, exponentEnd, signedEnd, starts, Text.ofString, hdigits,
        hlength] <;> omega

theorem fractionEnd_fractionText (h : l.Canonical) :
    fractionEnd (l.fractionText ++ l.exponentText) = l.fractionText.length := by
  have hrest (c) (hc : c ∈ l.exponentText.head?) := head?_exponentText l c hc
  by_cases hfraction : l.fraction = []
  · have hstart : starts (· = '.') l.exponentText = false := by
      cases htext : l.exponentText with
      | nil => rfl
      | cons c t =>
        rw [hrest c (by simp [htext])]
        rfl
    simp [fractionEnd, fractionText, hfraction, hstart]
  · have hdigits := digitsEnd_of_digits h.fraction_digits (fun c hc => .inr (hrest c hc)) false 1
    simp [fractionEnd, fractionText, hfraction, starts, Text.ofString, hdigits]
    omega

theorem decimalEnd_text (h : l.Canonical) (hsign : l.negative = false) :
    decimalEnd l.text = l.text.length := by
  have hwhole := digitsEnd_of_digits h.whole_digits (head?_fractionText l) false 0
  have hbig : starts (· = 'n') (l.fractionText ++ l.exponentText) = false := by
    cases htail : l.fractionText ++ l.exponentText with
    | nil => rfl
    | cons c t =>
      rcases head?_fractionText l c (by simp [htail]) with rfl | rfl <;> rfl
  rw [Nat.zero_add] at hwhole
  simp [decimalEnd, text_unsigned hsign, hwhole, h.fractionEnd_fractionText, hbig,
    h.exponentEnd_exponentText, h.whole_ne_nil, Nat.add_assoc]

/-- The first digit is zero only if it is followed by a point, a mark of an exponent or nothing. -/
theorem text_cases (h : l.Canonical) (hsign : l.negative = false) :
    (∃ c t, l.text = c :: t ∧ c ≠ '0') ∨
      ∃ t, l.text = ('0' : CodePoint) :: t ∧ ∀ c ∈ t.head?, c = '.' ∨ c = 'e' := by
  obtain ⟨c, w, hw⟩ := List.exists_cons_of_ne_nil h.whole_ne_nil
  rw [text_unsigned hsign]
  by_cases hc : c = '0'
  · have hwhole := h.whole_leading (by rw [hw, hc]; rfl)
    exact .inr ⟨_, by rw [hwhole]; rfl, head?_fractionText l⟩
  · exact .inl ⟨c, _, by rw [hw]; rfl, hc⟩

theorem numberEnd_text (h : l.Canonical) (hsign : l.negative = false) :
    numberEnd l.text = l.text.length := by
  have hother : markedNumberEnd l.text = 0 ∧ legacyOctalEnd l.text = 0 := by
    obtain ⟨c, t, htext, hc⟩ | ⟨t, htext, ht⟩ := h.text_cases hsign
    · rw [htext]
      cases t <;> simp [markedNumberEnd, legacyOctalEnd, starts, hc]
    · rw [htext]
      cases t with
      | nil => exact ⟨rfl, rfl⟩
      | cons c t => rcases ht c rfl with rfl | rfl <;> exact ⟨rfl, rfl⟩
  rw [numberEnd, hother.1, hother.2, h.decimalEnd_text hsign]
  rfl

/-- A canonical literal without a sign is one token of the grammar. -/
theorem number_text (h : l.Canonical) (hsign : l.negative = false) :
    number l.text = some l.text.length := by
  have hlength : l.text.length ≠ 0 := by simp [text_unsigned hsign, h.whole_ne_nil]
  simp [number, h.numberEnd_text hsign, starts, positive, hlength]

end Canonical
end

/-! ## Values -/

theorem size_eq (l : NumberLiteral) :
    l.size = Text.toNat (l.whole ++ l.fraction) * 10 ^ (l.power - l.fraction.length) := by
  rw [size, Text.toNat_append, zpow_sub₀ (by norm_num), zpow_natCast]
  push_cast
  field_simp

/-- A literal that ends in a fraction denotes no whole number, for its last digit is not zero. -/
theorem Canonical.fraction_eq_nil {l : NumberLiteral} (h : l.Canonical) (hnone : l.exponent = none)
    {m : ℕ} (hm : l.size = m) : l.fraction = [] := by
  rcases List.eq_nil_or_concat l.fraction with hnil | ⟨f, c, hf⟩
  · exact hnil
  have hpower : l.power = 0 := by simp [power, hnone]
  have hwhole : Text.toNat (l.whole ++ l.fraction) = m * 10 ^ (f.length + 1) := by
    rw [size_eq, hpower, zero_sub, zpow_neg, zpow_natCast, ← div_eq_mul_inv,
      div_eq_iff (by positivity)] at hm
    have hlength : l.fraction.length = f.length + 1 := by simp [hf]
    rw [hlength] at hm
    exact_mod_cast hm
  have hdigit := CodePoint.isDigit_iff.mp (h.fraction_digits c (by simp [hf]))
  have hzero : c.val ≠ 0x30 := by
    intro hc
    exact h.fraction_trailing (by simp [hf, show c = ('0' : CodePoint) from Fin.ext hc])
  rw [hf, List.concat_eq_append, ← List.append_assoc, Text.toNat_concat, pow_succ,
    ← mul_assoc] at hwhole
  omega

/-- A canonical literal of a whole number in plain notation is the numeral of the number. -/
theorem Canonical.text_of_size {l : NumberLiteral} (h : l.Canonical) (hnone : l.exponent = none)
    {m : ℕ} (hm : l.size = m) (hpos : 0 < m) :
    l.text = Text.ofInt (if l.negative then -(m : Int) else m) := by
  have hfraction := h.fraction_eq_nil hnone hm
  have hwhole : Text.toNat l.whole = m := by
    have : (Text.toNat l.whole : ℚ) = m := by simpa [size_eq, hfraction, power, hnone] using hm
    exact_mod_cast this
  have hnumeral : Text.ofNat m = l.whole := by
    rw [← hwhole]
    exact Text.ofNat_toNat h.whole_ne_nil h.whole_digits h.whole_leading
  have htext : l.text = l.signText ++ Text.ofNat m := by
    simp [text, fractionText, exponentText, hfraction, hnone, hnumeral]
  rw [htext, signText]
  cases l.negative with
  | false => rfl
  | true => exact (Text.ofInt_neg hpos).symm

end NumberLiteral

/-! ## Decimals -/

namespace Decimal
open Text

/-- The whole number that digits write. -/
def number (ds : List Digit) : Nat := Nat.ofDigits 10 (ds.reverse.map Fin.val)

/-- The number that a decimal stands for. -/
def value (d : Decimal) : ℚ := number d.digits * 10 ^ d.exponent

theorem point_eq_zero_iff {x : Digit} : x.point = '0' ↔ x = 0 := by
  rw [Fin.ext_iff, Fin.ext_iff]
  change 0x30 + x.val = 0x30 ↔ x.val = 0
  omega

theorem toNat_text (ds : List Digit) : toNat (text ds) = number ds := by
  induction ds using List.reverseRecOn with
  | nil => rfl
  | append_singleton ds x ih =>
    have hconcat : text (ds ++ [x]) = text ds ++ [x.point] := by simp [text]
    rw [hconcat, toNat_concat, ih]
    simp [number, Nat.ofDigits_cons, Digit.point]
    omega

theorem isDigit_point (x : Digit) : x.point.isDigit = true := by
  rw [CodePoint.isDigit_iff]
  simp only [Digit.point]
  omega

theorem isDigit_of_mem_text {ds : List Digit} {c : CodePoint} (h : c ∈ text ds) :
    c.isDigit = true := by
  obtain ⟨x, -, rfl⟩ := List.mem_map.mp h
  exact isDigit_point x

/-- Only zeros stand behind the significant digits. -/
theorem digits_eq (d : Decimal) :
    d.digits = d.significant ++ List.replicate (d.digits.rtakeWhile (· = 0)).length 0 := by
  have hzeros : d.digits.rtakeWhile (· = 0) =
      List.replicate (d.digits.rtakeWhile (· = 0)).length 0 := by
    rw [List.eq_replicate_length]
    intro x hx
    simpa using List.mem_rtakeWhile_imp hx
  rw [← hzeros]
  exact List.rdropWhile_append_rtakeWhile.symm

theorem getLast?_significant (d : Decimal) : d.significant.getLast? ≠ some 0 := by
  intro h
  have hne : d.digits.rdropWhile (· = 0) ≠ [] := fun hnil => by
    rw [show d.significant = [] from hnil] at h
    cases h
  have hlast := List.rdropWhile_last_not _ _ hne
  rw [show d.significant = d.digits.rdropWhile (· = 0) from rfl,
    List.getLast?_eq_some_getLast hne] at h
  exact hlast (by simpa using h)

theorem significant_eq_cons {d : Decimal} (h : ∃ x ∈ d.digits.head?, x ≠ 0) :
    ∃ x xs, d.significant = x :: xs ∧ x ≠ 0 := by
  obtain ⟨x, hx, hne⟩ := h
  rw [d.digits_eq] at hx
  cases hds : d.significant with
  | nil =>
    rw [hds, List.nil_append] at hx
    exact (hne (List.eq_of_mem_replicate (List.mem_of_mem_head? hx))).elim
  | cons y ys =>
    obtain rfl : y = x := by simpa [hds] using hx
    exact ⟨y, ys, rfl, hne⟩

/-- The significant digits, with the point in its place, make up the number. -/
theorem value_eq (d : Decimal) :
    d.value = toNat (text d.significant) * 10 ^ (d.pointPlace - d.significant.length) := by
  have hdigits := d.digits_eq
  generalize (d.digits.rtakeWhile (· = 0)).length = z at hdigits
  have hnumber : number d.digits = toNat (text d.significant) * 10 ^ z := by
    have hzeros : text (List.replicate z 0) = List.replicate z ('0' : CodePoint) :=
      List.map_replicate
    rw [← toNat_text, hdigits, text, List.map_append, ← text, ← text, hzeros, toNat_append,
      toNat_zeros, List.length_replicate, add_zero]
  have hplace : d.pointPlace - d.significant.length = z + d.exponent := by
    have hlength := congrArg List.length hdigits
    rw [List.length_append, List.length_replicate] at hlength
    rw [pointPlace]
    omega
  rw [value, hnumber, hplace, zpow_add₀ (by norm_num), zpow_natCast]
  push_cast
  ring

/-- The place of the point tells the size of the number. -/
theorem value_bounds {d : Decimal} (h : ∃ x ∈ d.digits.head?, x ≠ 0) :
    10 ^ (d.pointPlace - 1) ≤ d.value ∧ d.value < 10 ^ d.pointPlace := by
  obtain ⟨x, xs, hds, hx⟩ := significant_eq_cons h
  have hlow : 10 ^ xs.length ≤ toNat (text d.significant) := by
    have hpoint : x.point ≠ '0' := fun h => hx (point_eq_zero_iff.mp h)
    have := pow_le_toNat (s := text xs) (isDigit_point x) hpoint
    rw [hds]
    simpa [text] using this
  have hhigh : toNat (text d.significant) < 10 ^ (xs.length + 1) := by
    have := toNat_lt fun c (hc : c ∈ text d.significant) => isDigit_of_mem_text hc
    simpa [text, hds] using this
  have hlength : (d.significant.length : Int) = xs.length + 1 := by simp [hds]
  rw [value_eq, hlength]
  constructor
  · calc (10 : ℚ) ^ (d.pointPlace - 1)
        = 10 ^ xs.length * 10 ^ (d.pointPlace - (xs.length + 1)) := by
          rw [← zpow_natCast, ← zpow_add₀ (by norm_num)]
          congr 1
          omega
      _ ≤ toNat (text d.significant) * 10 ^ (d.pointPlace - (xs.length + 1)) := by
          gcongr
          exact_mod_cast hlow
  · calc (toNat (text d.significant) : ℚ) * 10 ^ (d.pointPlace - (xs.length + 1))
        < 10 ^ (xs.length + 1) * 10 ^ (d.pointPlace - (xs.length + 1)) := by
          gcongr
          exact_mod_cast hhigh
      _ = 10 ^ d.pointPlace := by
          rw [← zpow_natCast, ← zpow_add₀ (by norm_num)]
          congr 1
          push_cast
          omega

/-- The places at which plain notation begins and ends are those of two powers of ten. -/
theorem pointPlace_iff {d : Decimal} (h : ∃ x ∈ d.digits.head?, x ≠ 0) :
    -6 < d.pointPlace ∧ d.pointPlace ≤ 21 ↔ (10 : ℚ) ^ (-6 : ℤ) ≤ d.value ∧ d.value < 10 ^ 21 := by
  obtain ⟨hlow, hhigh⟩ := value_bounds h
  have hten : (1 : ℚ) < 10 := by norm_num
  constructor
  · rintro ⟨hleast, hmost⟩
    refine ⟨le_trans (zpow_le_zpow_right₀ hten.le (by omega)) hlow, lt_of_lt_of_le hhigh ?_⟩
    rw [← zpow_natCast]
    exact zpow_le_zpow_right₀ hten.le (by exact_mod_cast hmost)
  · rintro ⟨hleast, hmost⟩
    have h6 := (zpow_lt_zpow_iff_right₀ hten).mp (lt_of_le_of_lt hleast hhigh)
    rw [← zpow_natCast] at hmost
    have h21 := (zpow_lt_zpow_iff_right₀ hten).mp (lt_of_le_of_lt hlow hmost)
    push_cast at h21
    omega

/-! ## Layout -/

/-- The parts are those of the literal of a decimal: its text, its number and its notation. -/
structure Layout (d : Decimal) (l : NumberLiteral) : Prop where
  unsigned : l.negative = false
  text : l.text = d.literal
  canonical : l.Canonical
  size : l.size = d.value
  plain : l.exponent = none ↔ -6 < d.pointPlace ∧ d.pointPlace ≤ 21

theorem pointed_eq (whole fraction : List Digit) (exponent : Option (Bool × Text)) :
    pointed whole fraction = text whole ++
      (NumberLiteral.mk false (text whole) (text fraction) exponent).fractionText := by
  cases fraction with
  | nil => simp [pointed, NumberLiteral.fractionText, text]
  | cons y ys => simp [pointed, NumberLiteral.fractionText, text]

theorem getLast?_text_drop (d : Decimal) (n : Nat) :
    (text (d.significant.drop n)).getLast? ≠ some ('0' : CodePoint) := by
  intro h
  rw [text, List.getLast?_map, List.getLast?_drop] at h
  split at h
  · cases h
  · obtain ⟨y, hy, hpoint⟩ := Option.map_eq_some_iff.mp h
    rw [point_eq_zero_iff.mp hpoint] at hy
    exact d.getLast?_significant hy

/-- A literal has the value of a decimal if it has its significant digits, up to zeros at either
end, and the exponent makes up for the place of the point. -/
theorem size_eq_value {d : Decimal} {l : NumberLiteral} (z : Nat)
    (hdigits : toNat (l.whole ++ l.fraction) = toNat (text d.significant) * 10 ^ z)
    (hplace : z + (l.power - l.fraction.length) = d.pointPlace - d.significant.length) :
    l.size = d.value := by
  rw [l.size_eq, d.value_eq, hdigits, ← hplace, zpow_add₀ (by norm_num), zpow_natCast]
  push_cast
  ring

theorem toNat_text_take_drop (d : Decimal) (n : Nat) :
    toNat (text (d.significant.take n) ++ text (d.significant.drop n)) =
      toNat (text d.significant) := by
  rw [text, text, ← List.map_append, List.take_append_drop, ← text]

section
variable {d : Decimal} (h : ∃ x ∈ d.digits.head?, x ≠ 0)
include h

theorem head?_text_take {n : Nat} (hn : 0 < n) (t : Text) :
    (text (d.significant.take n) ++ t).head? ≠ some ('0' : CodePoint) := by
  obtain ⟨x, xs, hds, hx⟩ := significant_eq_cons h
  obtain ⟨n, rfl⟩ := Nat.exists_eq_succ_of_ne_zero hn.ne'
  have hpoint : x.point ≠ '0' := fun h => hx (point_eq_zero_iff.mp h)
  simpa [hds, text] using hpoint

theorem text_take_ne_nil {n : Nat} (hn : 0 < n) : text (d.significant.take n) ≠ [] := by
  obtain ⟨x, xs, hds, -⟩ := significant_eq_cons h
  obtain ⟨n, rfl⟩ := Nat.exists_eq_succ_of_ne_zero hn.ne'
  simp [hds, text]

theorem length_significant_pos : 0 < d.significant.length := by
  obtain ⟨x, xs, hds, -⟩ := significant_eq_cons h
  simp [hds]

/-- A whole number: zeros fill the places up to the point. -/
theorem layout_whole (hk : d.significant.length ≤ d.pointPlace) (hn : d.pointPlace ≤ 21) :
    d.Layout
      ⟨false, text d.significant ++ zeros (d.pointPlace - d.significant.length), [], none⟩ := by
  have hpos := length_significant_pos h
  have hhead := head?_text_take h hpos (zeros (d.pointPlace - d.significant.length))
  have hne := text_take_ne_nil h hpos
  rw [List.take_length] at hhead hne
  refine ⟨rfl, ?_, .plain ?_ (by simp [hne]) (fun h => (hhead h).elim) (by simp) (by simp), ?_, ?_⟩
  · simp [NumberLiteral.text, NumberLiteral.signText, NumberLiteral.fractionText,
      NumberLiteral.exponentText, literal, hk, hn]
  · intro c hc
    rcases List.mem_append.mp hc with hc | hc
    · exact isDigit_of_mem_text hc
    · rw [List.eq_of_mem_replicate hc]
      decide
  · refine size_eq_value (d.pointPlace - d.significant.length).toNat ?_ ?_
    · rw [List.append_nil, toNat_append, zeros, toNat_zeros, List.length_replicate, add_zero]
    · simp only [NumberLiteral.power, Option.elim_none, List.length_nil]
      omega
  · simp only [true_iff]
    omega

/-- A number with digits on both sides of the point. -/
theorem layout_pointed (hk : d.pointPlace < d.significant.length) (hpos : 0 < d.pointPlace)
    (hn : d.pointPlace ≤ 21) :
    d.Layout ⟨false, text (d.significant.take d.pointPlace.toNat),
      text (d.significant.drop d.pointPlace.toNat), none⟩ := by
  have hplace : 0 < d.pointPlace.toNat := by omega
  have hhead := head?_text_take h hplace []
  rw [List.append_nil] at hhead
  refine ⟨rfl, ?_, .plain (fun c => isDigit_of_mem_text) (text_take_ne_nil h hplace)
    (fun h => (hhead h).elim) (fun c => isDigit_of_mem_text) (d.getLast?_text_drop _), ?_, ?_⟩
  · simp only [literal]
    rw [if_neg (by omega), if_pos (by omega), pointed_eq _ _ none]
    simp [NumberLiteral.text, NumberLiteral.signText, NumberLiteral.exponentText]
  · refine size_eq_value 0 ((d.toNat_text_take_drop _).trans (mul_one _).symm) ?_
    simp only [NumberLiteral.power, Option.elim_none, text, List.length_map, List.length_drop]
    omega
  · simp only [true_iff]
    omega

/-- A number below one: zeros stand between the point and the digits. -/
theorem layout_fraction (hn : -6 < d.pointPlace) (hneg : d.pointPlace ≤ 0) :
    d.Layout ⟨false, "0", zeros (-d.pointPlace) ++ text d.significant, none⟩ := by
  have hpos := length_significant_pos h
  have hne := text_take_ne_nil h hpos
  rw [List.take_length] at hne
  have hlast := d.getLast?_text_drop 0
  refine ⟨rfl, ?_, .plain ?_ (by decide) (fun _ => rfl) ?_ ?_, ?_, ?_⟩
  · simp only [literal]
    rw [if_neg (by omega), if_neg (by omega), if_pos (by omega)]
    simp [NumberLiteral.text, NumberLiteral.signText, NumberLiteral.fractionText,
      NumberLiteral.exponentText, hne, ofString]
  · rw [show ("0" : Text) = [('0' : CodePoint)] from rfl, List.forall_mem_singleton]
    decide
  · intro c hc
    rcases List.mem_append.mp hc with hc | hc
    · rw [List.eq_of_mem_replicate hc]
      decide
    · exact isDigit_of_mem_text hc
  · rw [List.getLast?_append_of_ne_nil _ hne]
    exact hlast
  · refine size_eq_value 0 ?_ ?_
    · rw [toNat_append, toNat_append, zeros, toNat_zeros, show Text.toNat "0" = 0 from rfl]
      simp
    · simp only [NumberLiteral.power, Option.elim_none, zeros, text, List.length_append,
        List.length_replicate, List.length_map]
      omega
  · simp only [true_iff]
    omega

/-- A number beyond the places of plain notation. -/
theorem layout_exponent (hn : d.pointPlace ≤ -6 ∨ 21 < d.pointPlace) :
    d.Layout ⟨false, text (d.significant.take 1), text (d.significant.drop 1),
      some (d.pointPlace - 1 < 0, Text.ofNat (d.pointPlace - 1).natAbs)⟩ := by
  have hpos := length_significant_pos h
  obtain ⟨c, s, hnumeral, -⟩ := ofNat_eq_cons (d.pointPlace - 1).natAbs
  have hhead := head?_text_take h one_pos []
  rw [List.append_nil] at hhead
  refine ⟨rfl, ?_, ⟨fun c => isDigit_of_mem_text, text_take_ne_nil h one_pos,
    fun h => (hhead h).elim, fun c => isDigit_of_mem_text, d.getLast?_text_drop 1, ?_, ?_, ?_, ?_⟩,
    ?_, ?_⟩
  · have hpad : padZeros 1 (c :: s) = c :: s := by simp [padZeros]
    simp only [literal]
    rw [if_neg (by omega), if_neg (by omega), if_neg (by omega), exponentText, hnumeral, hpad]
    rw [pointed_eq _ _ (some (d.pointPlace - 1 < 0, c :: s))]
    simp [NumberLiteral.text, NumberLiteral.signText, NumberLiteral.exponentText]
  · simpa using fun c => isDigit_of_mem_ofNat
  · simp [hnumeral]
  · simpa using head?_ofNat (by omega)
  · obtain ⟨x, xs, hds, hx⟩ := significant_eq_cons h
    refine fun e _ => ⟨x.point, fun h => hx (point_eq_zero_iff.mp h), by simp [hds, text]⟩
  · refine size_eq_value 0 ((d.toNat_text_take_drop 1).trans (mul_one _).symm) ?_
    simp only [NumberLiteral.power, Option.elim_some, toNat_ofNat, text, List.length_map,
      List.length_drop, decide_eq_true_eq]
    split <;> omega
  · simp only [reduceCtorEq, false_iff]
    omega

theorem exists_layout : ∃ l, d.Layout l := by
  by_cases hn : -6 < d.pointPlace ∧ d.pointPlace ≤ 21
  · by_cases hk : d.significant.length ≤ d.pointPlace
    · exact ⟨_, layout_whole h hk hn.2⟩
    · by_cases hpos : 0 < d.pointPlace
      · exact ⟨_, layout_pointed h (by omega) hpos hn.2⟩
      · exact ⟨_, layout_fraction h hn.1 (by omega)⟩
  · exact ⟨_, layout_exponent h (by omega)⟩

end

theorem Layout.text_signed {d : Decimal} {l : NumberLiteral} (hl : d.Layout l) (negative : Bool) :
    { l with negative }.text = d.signedLiteral negative := by
  rw [signedLiteral, ← hl.text, NumberLiteral.text_unsigned hl.unsigned]
  cases negative <;> rfl

theorem Layout.canonical_signed {d : Decimal} {l : NumberLiteral} (hl : d.Layout l)
    (negative : Bool) : { l with negative }.Canonical :=
  { hl.canonical with }

/-- A whole number in plain notation is written as its numeral. -/
theorem Layout.signedLiteral_of_whole {d : Decimal} {l : NumberLiteral} (hl : d.Layout l)
    (h : ∃ x ∈ d.digits.head?, x ≠ 0) (negative : Bool) {m : ℕ} (hm : d.value = m)
    (hlt : m < 10 ^ 21) :
    d.signedLiteral negative = Text.ofInt (if negative then -(m : Int) else m) := by
  have hpos : 0 < m := by
    have := lt_of_lt_of_le (by positivity) (value_bounds h).1
    rw [hm] at this
    exact_mod_cast this
  have hnone : l.exponent = none := by
    refine (hl.plain.trans (pointPlace_iff h)).mpr ⟨?_, ?_⟩
    · rw [hm]
      calc (10 : ℚ) ^ (-6 : ℤ) ≤ 1 := by norm_num
        _ ≤ m := by exact_mod_cast hpos
    · rw [hm]
      exact_mod_cast hlt
  rw [← hl.text_signed]
  exact (hl.canonical_signed negative).text_of_size hnone (hl.size.trans hm) hpos

end Decimal

/-- A whole double below the bound is written out. -/
theorem Literal.double_of_toInt? {x : Double} {i : Int} (h : x.toInt? = some i)
    (hi : i.natAbs < 10 ^ 21) : double x = Text.ofInt i := by
  have hfinite : x.exponent.val ≠ 2047 := by
    intro hexponent
    simp [Double.toInt?, hexponent] at h
  have hnan : x.isNaN = false := by simp [Double.isNaN, hfinite]
  have hinfinite : x.isInfinite = false := by simp [Double.isInfinite, hfinite]
  have hfilter : (some i).filter (fun n => n.natAbs < 1000000000000000000000) = some i := by
    simpa using hi
  simp only [double, hnan, hinfinite, h, hfilter, Bool.false_eq_true, if_false]

namespace Decimal

/-- **A number literal denotes its number, in the notation for its size.** Digits that start with
no zero always leave a digit to begin with. The literal is read back into parts that make up its
text, with no zero to spare, and denotes exactly the number of the decimal, with its sign. The
grammar of fragments takes it, its sign apart, as one number. It has no exponent from a millionth up
to `10 ^ 21`. A whole number below that is written as its numeral, which is how a double of that
value is written out. -/
theorem literal_denotes_number (negative : Bool) {d : Decimal}
    (h : ∃ x ∈ d.digits.head?, x ≠ 0) :
    let text := d.signedLiteral negative
    d.significant ≠ [] ∧
    (∃ l, NumberLiteral.ofText? text = some l ∧ l.text = text ∧ l.Canonical ∧
      l.value = (if negative then -d.value else d.value) ∧
      (l.exponent = none ↔ (10 : ℚ) ^ (-6 : ℤ) ≤ d.value ∧ d.value < 10 ^ 21)) ∧
    Fragment.Lexeme.number d.literal = some d.literal.length ∧
    ∀ m : ℕ, d.value = m → m < 10 ^ 21 →
      let i : Int := if negative then -m else m
      text = Text.ofInt i ∧ ∀ x : Double, x.toInt? = some i → Literal.double x = text := by
  intro text
  obtain ⟨l, hl⟩ := exists_layout h
  let signed : NumberLiteral := { l with negative }
  have htext : signed.text = text := hl.text_signed negative
  have hcanonical : signed.Canonical := hl.canonical_signed negative
  have hsize : signed.size = d.value := hl.size
  have hplain : signed.exponent = none ↔ _ := hl.plain.trans (pointPlace_iff h)
  refine ⟨List.ne_nil_of_length_pos (length_significant_pos h),
    ⟨signed, ?_, htext, hcanonical, ?_, hplain⟩, ?_, ?_⟩
  · rw [← htext, hcanonical.ofText?_text]
  · rw [NumberLiteral.value, hsize]
  · rw [← hl.text, hl.canonical.number_text hl.unsigned]
  · intro m hm hlt i
    have hnumeral : text = Text.ofInt i := hl.signedLiteral_of_whole h negative hm hlt
    have hi : i.natAbs = m := by
      cases negative <;> simp [i]
    refine ⟨hnumeral, fun x hx => ?_⟩
    rw [hnumeral, Literal.double_of_toInt? hx (by omega)]

/-- Twenty-one places before the point are the most that are written out. -/
theorem literal_denotes_number_of_21_places :
    let d : Decimal := ⟨[1, 2, 0], 18⟩
    let m : ℕ := 120000000000000000000
    let x : Double := ⟨true, ⟨1089, by decide⟩, ⟨2820619122629504, by decide⟩⟩
    ((∃ x ∈ d.digits.head?, x ≠ 0) ∧ d.value = m ∧ m < 10 ^ 21 ∧ x.toInt? = some (-(m : Int))) ∧
    (∃ l, NumberLiteral.ofText? "-120000000000000000000" = some l ∧ l.exponent = none ∧
      l.value = -m) ∧
    Literal.double x = "-120000000000000000000" := by
  intro d m x
  have hleading : ∃ x ∈ d.digits.head?, x ≠ 0 := ⟨1, rfl, by decide⟩
  have hvalue : d.value = m := by norm_num [d, m, value, number, Nat.ofDigits]
  have hx : x.toInt? = some (-(m : Int)) := by decide
  obtain ⟨-, ⟨l, hread, -, -, hdenotes, hplain⟩, -, hwhole⟩ := literal_denotes_number true hleading
  obtain ⟨-, hdouble⟩ := hwhole m hvalue (by decide)
  have hnone : l.exponent = none := hplain.mpr (by rw [hvalue]; norm_num [m])
  refine ⟨⟨hleading, hvalue, by decide, hx⟩, ⟨l, hread, hnone, ?_⟩, hdouble x hx⟩
  rw [hdenotes, hvalue]
  rfl

end Decimal

end CompositeScript
