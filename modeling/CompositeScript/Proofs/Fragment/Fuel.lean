import CompositeScript.Proofs.Fragment.Lexemes
import CompositeScript.Fragment.Parse

/-!
Enough fuel.

Every repeated rule takes at least one code point, and a symbol that another asks for before it has
taken one is of lower rank. So at every code point only a few symbols open, and the fuel that a
script starts with never runs out: whatever a rule reads, it reads with that fuel.
-/

namespace CompositeScript.Fragment

open Lexeme

/-- Every token of the kind takes a code point. -/
def Lexeme.Advances (l : Lexeme) : Prop :=
  ∀ s n, l.opens s = true → l.length s = some n → 0 < n ∧ s ≠ []

/-- What is known of the symbols of a grammar. -/
structure Ranking (σ : Type) where
  /-- A symbol asks only for symbols of lower rank, before it has taken a code point. -/
  rank : σ → Nat
  /-- No symbol has this rank. -/
  top : Nat
  /-- The symbol never reads nothing. -/
  isFull : σ → Prop

namespace Rule

variable {σ : Type}

/-- What the rule finds is never empty. -/
def Takes (R : Ranking σ) : Rule σ → Prop
  | leaf _ l => l.Advances
  | ref z => R.isFull z
  | seq a b => a.Takes R ∨ b.Takes R
  | alt a b => a.Takes R ∧ b.Takes R
  | adapt _ a | grow _ a _ => a.Takes R
  | done | blanks _ | many _ | refuse _ => False

/-- The rule asks only for symbols below the rank `k`, before it has taken a code point, and what it
repeats is never empty. -/
def Ranked (R : Ranking σ) (k : Nat) : Rule σ → Prop
  | done | leaf _ _ | blanks _ => True
  | ref z => R.rank z < k
  | seq a b => a.Ranked R k ∧ b.Ranked R R.top ∧ (a.Takes R ∨ b.Ranked R k)
  | alt a b => a.Ranked R k ∧ b.Ranked R k
  | many a => a.Takes R ∧ a.Ranked R k
  | refuse a | adapt _ a => a.Ranked R k
  | grow _ a step => a.Takes R ∧ a.Ranked R k ∧ ∀ t, (step t).Takes R ∧ (step t).Ranked R R.top

theorem Ranked.mono {R : Ranking σ} {k k' : Nat} {r : Rule σ} (h : r.Ranked R k) (hk : k ≤ k') :
    r.Ranked R k' := by
  induction r with
  | done | leaf | blanks => trivial
  | ref z => exact Nat.lt_of_lt_of_le h hk
  | seq a b iha ihb => exact ⟨iha h.1, h.2.1, h.2.2.imp id ihb⟩
  | alt a b iha ihb => exact ⟨iha h.1, ihb h.2⟩
  | many a ih => exact ⟨h.1, ih h.2⟩
  | refuse a ih => exact ih h
  | adapt view a ih => exact ih h
  | grow join a step iha => exact ⟨h.1, iha h.2.1, h.2.2⟩

end Rule

/-- The ranking is right for the grammar. -/
structure Ranking.Fits {σ : Type} (R : Ranking σ) (G : σ → Rule σ) : Prop where
  pos : ∀ z, 0 < R.rank z
  lt_top : ∀ z, R.rank z < R.top
  ranked : ∀ z, (G z).Ranked R (R.rank z)
  takes : ∀ z, R.isFull z → (G z).Takes R

section

variable {σ : Type} {R : Ranking σ} {G : σ → Rule σ} {r : Rule σ} {s mid : Text} {x : Reading}

/-- The rest is no longer than the text, and shorter if the rule takes something. -/
def Shortens (R : Ranking σ) (r : Rule σ) (s rest : Text) : Prop :=
  rest.length ≤ s.length ∧ (r.Takes R → rest.length < s.length)

/-- The rule reads `x` with fuel for the length of the text and for the symbols that open at its
front, and no repetition in it goes on for longer than the text. -/
def Suffices (R : Ranking σ) (G : σ → Rule σ) (r : Rule σ) (s : Text) (x : Reading) : Prop :=
  (∀ k ts rest, x = .found k ts rest → Shortens R r s rest) ∧
    ∀ k ≤ R.top, r.Ranked R k → ∀ n ≥ R.top * s.length + k, ∀ i > s.length,
      r.run i (read G n) s = x

theorem fuel_of_lt {n : Nat} (hmid : mid.length < s.length) (hn : n ≥ R.top * s.length) :
    n ≥ R.top * mid.length + R.top := by
  have := Nat.mul_le_mul_left R.top hmid
  rw [Nat.mul_succ] at this
  omega

theorem fuel_of_le {n k : Nat} (hmid : mid.length ≤ s.length) (hn : n ≥ R.top * s.length + k) :
    n ≥ R.top * mid.length + k := by
  have := Nat.mul_le_mul_left R.top hmid
  omega

namespace Suffices

theorem absent (h : ∀ k ≤ R.top, r.Ranked R k → ∀ n ≥ R.top * s.length + k, ∀ i > s.length,
    r.run i (read G n) s = .absent) : Suffices R G r s .absent :=
  ⟨nofun, h⟩

theorem found {k : Bool} {ts : List Tree} {rest : Text} (hrest : Shortens R r s rest)
    (h : ∀ k' ≤ R.top, r.Ranked R k' → ∀ n ≥ R.top * s.length + k', ∀ i > s.length,
      r.run i (read G n) s = .found k ts rest) : Suffices R G r s (.found k ts rest) :=
  ⟨fun _ _ _ hx => by cases hx; exact hrest, h⟩

theorem shortens {k : Bool} {ts : List Tree} {rest : Text}
    (h : Suffices R G r s (.found k ts rest)) : Shortens R r s rest :=
  h.1 _ _ _ rfl

/-- Behind what `a` found, the fuel is still enough. -/
theorem run_behind {a b : Rule σ} {k n i : Nat} (hb : Suffices R G b mid x)
    (hmid : Shortens R a s mid) (hk : k ≤ R.top) (hr : (Rule.seq a b).Ranked R k)
    (hn : n ≥ R.top * s.length + k) (hi : i > s.length) : b.run i (read G n) mid = x := by
  have hi' : i > mid.length := Nat.lt_of_le_of_lt hmid.1 hi
  rcases hr.2.2 with hta | hrb
  · exact hb.2 R.top (Nat.le_refl _) hr.2.1 n (fuel_of_lt (hmid.2 hta) (by omega)) i hi'
  · exact hb.2 k hk hrb n (fuel_of_le hmid.1 hn) i hi'

end Suffices

theorem run_succ_below (r : Rule σ) (i n : Nat) (s : Text) :
    Reading.Below (r.run i (read G n) s) (r.run (i + 1) (read G n) s) :=
  Rule.run_below (fun _ _ => .refl _) (Nat.le_succ i) r s

theorem repeated_of_run {a : Rule σ} {n i : Nat} (h : (Rule.many a).run i (read G n) s = x)
    (hx : x ≠ .broken) : repeated (a.run (i + 1) (read G n)) i s = x := by
  have hbelow := repeated_below (run_succ_below (G := G) a i n) (Nat.le_refl i) s
  rw [show repeated (a.run i (read G n)) i s = x from h] at hbelow
  exact hbelow.eq hx

theorem grown_of_grown {join : Tree → Tree → Option Tree} {step : Tree → Rule σ} {t : Tree}
    {n i : Nat} (h : grown join (fun t => (step t).run i (read G n)) i t s = x) (hx : x ≠ .broken) :
    grown join (fun t => (step t).run (i + 1) (read G n)) i t s = x := by
  have hbelow : Reading.Below (grown join (fun t => (step t).run i (read G n)) i t s)
      (grown join (fun t => (step t).run (i + 1) (read G n)) i t s) :=
    grown_below (fun t => run_succ_below (step t) i n) (Nat.le_refl i) t s
  rw [h] at hbelow
  exact hbelow.eq hx

theorem inductive_suffices (hR : R.Fits G) : Inductive G (Suffices R G)
    (fun join step t s k u rest => rest.length ≤ s.length ∧
      ((∀ t, (step t).Takes R ∧ (step t).Ranked R R.top) → ∀ n ≥ R.top * s.length + R.top,
        ∀ i > s.length,
          grown join (fun t => (step t).run i (read G n)) i t s = .found k [u] rest)) where
  done s := .found ⟨Nat.le_refl _, False.elim⟩ fun _ _ _ _ _ _ _ => rfl
  leaf_absent hopens := .absent fun _ _ _ _ _ _ _ => by simp [Rule.run, hopens]
  leaf_found {f l s m} hopens hlength := by
    refine .found ⟨by simp, fun hl => ?_⟩ fun _ _ _ _ _ _ _ => by simp [Rule.run, hopens, hlength]
    obtain ⟨hm, hs⟩ := hl s m hopens hlength
    have := List.length_pos_iff.mpr hs
    rw [List.length_drop]
    omega
  blanks_absent hgap haccept := .absent fun _ _ _ _ _ _ _ => by simp [Rule.run, hgap, haccept]
  blanks_found hgap haccept :=
    .found ⟨(gap?_eq_some.mp hgap).suffix.length_le, False.elim⟩
      fun _ _ _ _ _ _ _ => by simp [Rule.run, hgap, haccept]
  ref {z s x} h := by
    refine ⟨fun k ts rest hx => ⟨(h.1 k ts rest hx).1, fun hz => (h.1 k ts rest hx).2
      (hR.takes z hz)⟩, fun k hk hr n hn i hi => ?_⟩
    have hrank : R.rank z < k := hr
    obtain ⟨n, rfl⟩ : ∃ m, n = m + 1 := ⟨n - 1, by omega⟩
    have hlength : s.length ≤ R.top * s.length :=
      Nat.le_mul_of_pos_left _ (Nat.zero_lt_of_lt (hR.lt_top z))
    have := hR.pos z
    exact h.2 (R.rank z) (Nat.le_of_lt (hR.lt_top z)) (hR.ranked z) n (by omega) n (by omega)
  seq_absent ha := .absent fun k hk hr n hn i hi => by
    simp [Rule.run, ha.2 k hk hr.1 n hn i hi, Reading.andThen]
  seq_stopped ha hb := .absent fun k hk hr n hn i hi => by
    simp [Rule.run, ha.2 k hk hr.1 n hn i hi, hb.run_behind ha.shortens hk hr hn hi,
      Reading.andThen, Reading.behind, Reading.stopped]
  seq_found ha hb := by
    have hle := Nat.le_trans hb.shortens.1 ha.shortens.1
    refine .found ⟨hle, fun h => ?_⟩ fun k hk hr n hn i hi => ?_
    · rcases h with h | h
      · exact Nat.lt_of_le_of_lt hb.shortens.1 (ha.shortens.2 h)
      · exact Nat.lt_of_lt_of_le (hb.shortens.2 h) ha.shortens.1
    · simp [Rule.run, ha.2 k hk hr.1 n hn i hi, hb.run_behind ha.shortens hk hr hn hi,
        Reading.andThen, Reading.behind]
  alt_absent ha hb := .absent fun k hk hr n hn i hi => by
    simp [Rule.run, ha.2 k hk hr.1 n hn i hi, hb.2 k hk hr.2 n hn i hi]
  alt_left ha := .found ⟨ha.shortens.1, fun h => ha.shortens.2 h.1⟩ fun k hk hr n hn i hi => by
    simp [Rule.run, ha.2 k hk hr.1 n hn i hi]
  alt_right ha hb := .found ⟨hb.shortens.1, fun h => hb.shortens.2 h.2⟩ fun k hk hr n hn i hi => by
    simp [Rule.run, ha.2 k hk hr.1 n hn i hi, hb.2 k hk hr.2 n hn i hi]
  many_stop ha := .found ⟨Nat.le_refl _, False.elim⟩ fun k hk hr n hn i hi => by
    obtain ⟨i, rfl⟩ : ∃ j, i = j + 1 := ⟨i - 1, by omega⟩
    simp [Rule.run, repeated, ha.2 k hk hr.2 n hn (i + 1) hi]
  many_next {a s k ts mid k' us rest} ha hmany := by
    refine .found ⟨Nat.le_trans hmany.shortens.1 ha.shortens.1, False.elim⟩
      fun k hk hr n hn i hi => ?_
    obtain ⟨i, rfl⟩ : ∃ j, i = j + 1 := ⟨i - 1, by omega⟩
    have hmid := ha.shortens.2 hr.1
    have hrest : (Rule.many a).run i (read G n) mid = .found k' us rest :=
      hmany.2 R.top (Nat.le_refl _) ⟨hr.1, hr.2.mono hk⟩ n (fuel_of_lt hmid (by omega)) i (by omega)
    simp [Rule.run, repeated, ha.2 k hk hr.2 n hn (i + 1) hi,
      repeated_of_run hrest Reading.found_ne_broken, Reading.behind]
  refuse_absent _ ha := .absent fun k hk hr n hn i hi => by
    simp [Rule.run, ha.2 k hk hr n hn i hi]
  refuse_found _ ha := .found ⟨Nat.le_refl _, False.elim⟩ fun k hk hr n hn i hi => by
    simp [Rule.run, ha.2 k hk hr n hn i hi]
  adapt_absent ha := .absent fun k hk hr n hn i hi => by
    simp [Rule.run, ha.2 k hk hr n hn i hi, Reading.adapt]
  adapt_stopped ha hview := .absent fun k hk hr n hn i hi => by
    simp [Rule.run, ha.2 k hk hr n hn i hi, Reading.adapt, hview, Reading.stopped]
  adapt_found ha hview := .found ha.shortens fun k hk hr n hn i hi => by
    simp [Rule.run, ha.2 k hk hr n hn i hi, Reading.adapt, hview]
  grow_absent ha := .absent fun k hk hr n hn i hi => by
    simp [Rule.run, ha.2 k hk hr.2.1 n hn i hi]
  grow_found ha hgrows := by
    refine .found ⟨Nat.le_trans hgrows.1 ha.shortens.1,
      fun h => Nat.lt_of_le_of_lt hgrows.1 (ha.shortens.2 h)⟩ fun k hk hr n hn i hi => ?_
    have hmid := ha.shortens.2 hr.1
    simp [Rule.run, ha.2 k hk hr.2.1 n hn i hi,
      hgrows.2 hr.2.2 n (fuel_of_lt hmid (by omega)) i (by omega), Reading.behind]
  grows_stop {join step t s} ha := by
    refine ⟨Nat.le_refl _, fun hstep n hn i hi => ?_⟩
    obtain ⟨i, rfl⟩ : ∃ j, i = j + 1 := ⟨i - 1, by omega⟩
    simp [grown, ha.2 R.top (Nat.le_refl _) (hstep t).2 n hn (i + 1) hi]
  grows_loose {join step t u s rest} ha hjoin := by
    refine ⟨Nat.le_refl _, fun hstep n hn i hi => ?_⟩
    obtain ⟨i, rfl⟩ : ∃ j, i = j + 1 := ⟨i - 1, by omega⟩
    simp [grown, ha.2 R.top (Nat.le_refl _) (hstep t).2 n hn (i + 1) hi, hjoin]
  grows_next {join step t u v w s mid rest k k'} ha hjoin hgrows := by
    refine ⟨Nat.le_trans hgrows.1 ha.shortens.1, fun hstep n hn i hi => ?_⟩
    obtain ⟨i, rfl⟩ : ∃ j, i = j + 1 := ⟨i - 1, by omega⟩
    have hmid := ha.shortens.2 (hstep t).1
    have hrest := hgrows.2 hstep n (fuel_of_le (Nat.le_of_lt hmid) hn) i (by omega)
    simp [grown, ha.2 R.top (Nat.le_refl _) (hstep t).2 n hn (i + 1) hi, hjoin,
      grown_of_grown hrest Reading.found_ne_broken, Reading.behind]

/-- Fuel for every code point is enough. -/
theorem Reads.read_eq (hR : R.Fits G) {z : σ} (h : Reads G (.ref z) s x) :
    read G (R.top * (s.length + 1)) z s = x :=
  ((inductive_suffices hR).reads h).2 R.top (Nat.le_refl _) (hR.lt_top z) _ (Nat.le_refl _)
    (s.length + 1) (Nat.lt_succ_self _)

end

/-! ## Tokens -/

namespace Lexeme

variable {f g : Text → Option Nat} {k : Bool}

theorem advances_plain (hnil : f [] = none) (hpos : ∀ s, f s ≠ some 0) :
    Advances (.plain f k) := by
  intro s n _ hn
  refine ⟨Nat.pos_of_ne_zero ?_, ?_⟩
  · rintro rfl
    exact hpos s hn
  · rintro rfl
    exact absurd (hnil.symm.trans hn) nofun

theorem positive_ne_zero (n : Nat) : positive n ≠ some 0 := by
  unfold positive
  split
  · exact nofun
  next h => exact fun h' => h (Option.some.inj h')

theorem word_ne_zero (s : Text) : word s ≠ some 0 := by
  unfold word
  split
  · exact nofun
  · exact positive_ne_zero _

theorem keyword_ne_zero (w s : Text) : keyword w s ≠ some 0 :=
  fun h => word_ne_zero s (word_of_keyword h).1

theorem mark_ne_zero {p stops : Text} (hp : p ≠ []) (s : Text) : mark p stops s ≠ some 0 := by
  unfold mark
  split
  · exact fun h => hp (List.length_eq_zero_iff.mp (Option.some.inj h))
  · exact nofun

theorem firstMark_ne_zero {ms : List (Text × Text)} (hms : ∀ m ∈ ms, m.1 ≠ []) (s : Text) :
    firstMark ms s ≠ some 0 := by
  intro h
  obtain ⟨m, hm, hmark⟩ := mark_of_firstMark h
  exact mark_ne_zero (hms m hm) s hmark

@[simp] theorem advances_word : Advances (.plain word k) := advances_plain rfl word_ne_zero

@[simp] theorem advances_name : Advances (.plain name k) :=
  advances_plain rfl fun s h => word_ne_zero s (word_of_name h)

@[simp] theorem advances_ownName : Advances (.plain ownName k) :=
  advances_plain rfl fun s h => word_ne_zero s (word_of_ownName h)

@[simp] theorem advances_keyword {w : Text} : Advances (.plain (keyword w) k) :=
  advances_plain (by unfold keyword; split <;> rfl) (keyword_ne_zero w)

@[simp] theorem advances_mark {p stops : Text} (hp : p ≠ []) :
    Advances (.plain (mark p stops) k) := by
  refine advances_plain ?_ (mark_ne_zero hp)
  obtain ⟨c, t, rfl⟩ := List.exists_cons_of_ne_nil hp
  rfl

@[simp] theorem advances_privateName : Advances (.plain privateName k) := by
  refine advances_plain rfl fun s h => ?_
  unfold privateName at h
  split at h
  · obtain ⟨n, -, hn⟩ := Option.map_eq_some_iff.mp h
    exact absurd hn (Nat.succ_ne_zero n)
  · exact absurd h nofun

@[simp] theorem advances_number : Advances (.plain number k) := by
  refine advances_plain rfl fun s h => ?_
  unfold number at h
  split at h
  · exact absurd h nofun
  · exact positive_ne_zero _ h

@[simp] theorem advances_unaryOperator : Advances (.plain unaryOperator k) := by
  refine advances_plain rfl fun s h => ?_
  unfold unaryOperator at h
  repeat' split at h
  · next hm => exact firstMark_ne_zero (by decide) s (hm.trans h)
  · next hk => exact keyword_ne_zero _ s (hk.trans h)
  · next hk => exact keyword_ne_zero _ s (hk.trans h)
  · exact keyword_ne_zero _ s h

@[simp] theorem advances_binaryOperator (allowIn : Bool) :
    Advances (.plain (binaryOperator allowIn) k) := by
  refine advances_plain (by cases allowIn <;> rfl) fun s h => ?_
  unfold binaryOperator at h
  repeat' split at h
  · exact absurd h nofun
  · next hm => exact firstMark_ne_zero (by decide) s (hm.trans h)
  · next hk => exact keyword_ne_zero _ s (hk.trans h)
  · exact keyword_ne_zero _ s h
  · exact absurd h nofun

@[simp] theorem advances_augmentedOperator : Advances (.plain augmentedOperator k) :=
  advances_plain rfl (firstMark_ne_zero (by decide))

@[simp] theorem advances_questionMark : Advances (.plain questionMark k) := by
  refine advances_plain rfl fun s h => ?_
  unfold questionMark at h
  split at h
  · exact absurd h nofun
  · exact mark_ne_zero (by decide) s h

@[simp] theorem advances_elementWord : Advances (.plain elementWord k) := by
  refine advances_plain rfl fun s h => ?_
  unfold elementWord at h
  split at h
  next hstart =>
    simp only at h
    split at h
    · exact absurd h nofun
    · obtain ⟨c, t, rfl, hc⟩ := exists_cons_of_starts hstart
      simp [show isNamePart c = true from (Bool.and_eq_true_iff.mp hc).1] at h
  next => exact absurd h nofun

@[simp] theorem advances_charactersAfter (c : CodePoint) :
    Advances (.plain (charactersAfter c) k) := by
  refine advances_plain rfl fun s h => ?_
  unfold charactersAfter at h
  split at h
  · have := le_charactersEnd 0 1 (s.drop 1)
    have := Option.some.inj h
    omega
  · exact absurd h nofun

@[simp] theorem advances_textAfter (c : CodePoint) : Advances (.plain (textAfter c) k) := by
  refine advances_plain rfl fun s h => ?_
  unfold textAfter at h
  split at h
  · exact absurd (Option.some.inj h) (Nat.succ_ne_zero _)
  · exact absurd h nofun

@[simp] theorem advances_string : Advances ⟨starts isQuote, string, k⟩ := by
  rintro (_ | ⟨q, s⟩) n hopens hn
  · cases hopens
  · refine ⟨?_, List.cons_ne_nil q s⟩
    simp only [string] at hn
    split at hn
    · have := lt_stringEnd hn
      omega
    · cases hn

@[simp] theorem advances_regex : Advances ⟨fun s => (mark "/" "/*" s).isSome, regex, k⟩ := by
  intro s n hopens (hn : regex s = some n)
  refine ⟨?_, ?_⟩
  · unfold regex at hn
    split at hn
    · cases hn
    · split at hn
      · cases hn
      next hend =>
        have := lt_regexEnd hend
        simp only at hn
        split at hn
        · cases hn
        · cases hn
          omega
  · rintro rfl
    cases hopens

end Lexeme

/-! ## The grammar -/

namespace Rule

variable {σ : Type} {R : Ranking σ} {a b : Rule σ} {k : Nat}

@[simp] theorem takes_seq : (seq a b).Takes R ↔ a.Takes R ∨ b.Takes R := Iff.rfl

@[simp] theorem takes_alt : (alt a b).Takes R ↔ a.Takes R ∧ b.Takes R := Iff.rfl

@[simp] theorem takes_ref {z : σ} : (ref z).Takes R ↔ R.isFull z := Iff.rfl

@[simp] theorem takes_adapt {view : List Tree → Option (List Tree)} :
    (adapt view a).Takes R ↔ a.Takes R := Iff.rfl

@[simp] theorem takes_node {f : Form} : (node f a).Takes R ↔ a.Takes R := Iff.rfl

@[simp] theorem takes_role {q : Role} : (role q a).Takes R ↔ a.Takes R := Iff.rfl

@[simp] theorem takes_grow {join : Tree → Tree → Option Tree} {step : Tree → Rule σ} :
    (grow join a step).Takes R ↔ a.Takes R := Iff.rfl

@[simp] theorem not_takes_done : ¬ (done : Rule σ).Takes R := id

@[simp] theorem not_takes_blanks {accept : List Tree → Bool} :
    ¬ (blanks accept : Rule σ).Takes R := id

@[simp] theorem not_takes_many : ¬ (many a).Takes R := id

@[simp] theorem not_takes_refuse : ¬ (refuse a).Takes R := id

@[simp] theorem takes_leaf {f : Form} {l : Lexeme} : (leaf f l : Rule σ).Takes R ↔ l.Advances :=
  Iff.rfl

@[simp] theorem ranked_done : (done : Rule σ).Ranked R k := trivial

@[simp] theorem ranked_leaf {f : Form} {l : Lexeme} : (leaf f l : Rule σ).Ranked R k := trivial

@[simp] theorem ranked_blanks {accept : List Tree → Bool} : (blanks accept : Rule σ).Ranked R k :=
  trivial

@[simp] theorem ranked_ref {z : σ} : (ref z).Ranked R k ↔ R.rank z < k := Iff.rfl

@[simp] theorem ranked_seq : (seq a b).Ranked R k ↔
    a.Ranked R k ∧ b.Ranked R R.top ∧ (a.Takes R ∨ b.Ranked R k) := Iff.rfl

@[simp] theorem ranked_alt : (alt a b).Ranked R k ↔ a.Ranked R k ∧ b.Ranked R k := Iff.rfl

@[simp] theorem ranked_many : (many a).Ranked R k ↔ a.Takes R ∧ a.Ranked R k := Iff.rfl

@[simp] theorem ranked_refuse : (refuse a).Ranked R k ↔ a.Ranked R k := Iff.rfl

@[simp] theorem ranked_adapt {view : List Tree → Option (List Tree)} :
    (adapt view a).Ranked R k ↔ a.Ranked R k := Iff.rfl

@[simp] theorem ranked_node {f : Form} : (node f a).Ranked R k ↔ a.Ranked R k := Iff.rfl

@[simp] theorem ranked_role {q : Role} : (role q a).Ranked R k ↔ a.Ranked R k := Iff.rfl

@[simp] theorem ranked_test {p : List Tree → Bool} : (test p a).Ranked R k ↔ a.Ranked R k := Iff.rfl

@[simp] theorem ranked_grow {join : Tree → Tree → Option Tree} {step : Tree → Rule σ} :
    (grow join a step).Ranked R k ↔ a.Takes R ∧ a.Ranked R k ∧
      ∀ t, (step t).Takes R ∧ (step t).Ranked R R.top := Iff.rfl

end Rule

/-- The symbols that a symbol asks for at once have a lower rank. -/
@[simp] def Symbol.rank : Symbol → Nat
  | block _ | construction _ | arguments _ | template _ | property _ | classLiteral _
  | functionLiteral | parameters _ | bindingTarget _ | element _ _ => 1
  | primary _ | bindingElement _ => 2
  | chain _ => 3
  | unary _ => 4
  | binary _ => 5
  | conditional _ => 6
  | assignment _ => 7
  | expression _ => 8
  | statement _ => 9
  | program => 10

namespace Grammar

open Rule

/-- How the symbols of the grammar ask for each other. Only a script may be empty. -/
def ranking : Ranking Symbol := ⟨Symbol.rank, symbolsPerPoint, (· ≠ .program)⟩

@[simp] theorem ranking_rank (z : Symbol) : ranking.rank z = z.rank := rfl

@[simp] theorem ranking_isFull (z : Symbol) : ranking.isFull z ↔ z ≠ .program := Iff.rfl

@[simp] theorem rank_lt_top (z : Symbol) : z.rank < ranking.top := by
  cases z <;> exact of_decide_eq_true rfl

variable {k : Nat} {r : Part} {c : Context}

@[simp] theorem takes_unlessOperator (h : r.Takes ranking) :
    (unlessOperator c r).Takes ranking := by
  cases hc : c.inAsync <;> cases hc' : c.inGenerator <;> simp [unlessOperator, hc, hc', h]

@[simp] theorem ranked_unlessOperator (h : ∀ k, r.Ranked ranking k) :
    (unlessOperator c r).Ranked ranking k := by
  cases hc : c.inAsync <;> cases hc' : c.inGenerator <;>
    simp [unlessOperator, keyword, word, hc, hc', h]

@[simp] theorem takes_wordOperator {isOperator : Bool} {w : Text} :
    (wordOperator isOperator w r).Takes ranking := by
  cases isOperator <;> simp [wordOperator, Rule.all, keyword, word]

@[simp] theorem ranked_wordOperator {isOperator : Bool} {w : Text} (h : ∀ k, r.Ranked ranking k) :
    (wordOperator isOperator w r).Ranked ranking k := by
  cases isOperator <;>
    simp [wordOperator, Rule.all, operandAhead, Rule.ahead, point, lineGap, keyword, word, h]

@[simp] theorem takes_propertyKey : (propertyKey c).Takes ranking := by
  simp +decide [propertyKey, Rule.any, propertyName, quoted, number, computedName, spaced, token,
    word]

@[simp] theorem ranked_propertyKey : (propertyKey c).Ranked ranking k := by
  simp +decide [propertyKey, Rule.any, propertyName, quoted, number, computedName, spaced, token,
    word, gap]

@[simp] theorem ranked_functionRest {isAsync isGenerator : Bool} (hk : 1 < k) :
    (functionRest isAsync isGenerator).Ranked ranking k := by
  simp +decide [functionRest, spaced, gap, hk]

@[simp] theorem takes_initialValue : (initialValue c).Takes ranking := by
  simp +decide [initialValue, Rule.all, equalsSign, tokenNot]

@[simp] theorem ranked_initialValue : (initialValue c).Ranked ranking k := by
  simp +decide [initialValue, Rule.all, gap, equalsSign, tokenNot]

@[simp] theorem takes_restPattern : (restPattern c).Takes ranking := by
  simp +decide [restPattern, spaced, token]

@[simp] theorem ranked_restPattern : (restPattern c).Ranked ranking k := by
  simp +decide [restPattern, spaced, token, gap]

@[simp] theorem takes_spread : (spread c).Takes ranking := by
  simp +decide [spread, spaced, token]

@[simp] theorem ranked_spread : (spread c).Ranked ranking k := by
  simp +decide [spread, spaced, token, gap]

/-! ### Elements -/

@[simp] theorem takes_elementEnd {inContent : Bool} {p : CodePoint} :
    (elementEnd inContent p).Takes ranking := by
  cases inContent <;> simp [elementEnd, textMark, token]

@[simp] theorem ranked_elementEnd {inContent : Bool} {p : CodePoint} :
    (elementEnd inContent p).Ranked ranking k := by
  cases inContent <;> simp [elementEnd, textMark, token]

@[simp] theorem ranked_elementName : elementName.Ranked ranking k := by
  simp +decide [elementName, localName, elementWord, Rule.all, token, gap]

@[simp] theorem takes_elementExpression {inContent : Bool} :
    (elementExpression c inContent).Takes ranking := by
  simp +decide [elementExpression, Rule.all, token]

@[simp] theorem ranked_elementExpression {inContent : Bool} :
    (elementExpression c inContent).Ranked ranking k := by
  simp +decide [elementExpression, Rule.all, Rule.optional, token, gap]

@[simp] theorem takes_elementAttribute : (elementAttribute c).Takes ranking := by
  simp +decide [elementAttribute, attributeName, elementWord, spaced, token]

@[simp] theorem ranked_elementAttribute : (elementAttribute c).Ranked ranking k := by
  simp +decide [elementAttribute, attributeName, localName, elementWord, spaced, quoted, Rule.all,
    Rule.any, Rule.optional, token, gap]

@[simp] theorem ranked_elementContent : (elementContent c).Ranked ranking k := by
  simp +decide [elementContent]

/-! ### Classes -/

@[simp] theorem takes_memberKey : (memberKey c).Takes ranking := by
  simp [memberKey, privateName, word]

@[simp] theorem ranked_memberKey : (memberKey c).Ranked ranking k := by
  simp [memberKey, privateName, word]

@[simp] theorem takes_markedMethod : (markedMethod r).Takes ranking := by
  simp +decide [markedMethod, asyncMark, spaced, Rule.all, Rule.any, keyword, word, token]

@[simp] theorem ranked_markedMethod (h : ∀ k, r.Ranked ranking k) :
    (markedMethod r).Ranked ranking k := by
  simp +decide [markedMethod, asyncMark, spaced, Rule.all, Rule.any, keyword, word, token, gap,
    lineGap, h]

@[simp] theorem ranked_semicolon : semicolon.Ranked ranking k := by
  simp +decide [semicolon, newline, finish, point, Rule.any, Rule.ahead, token, gap]

@[simp] theorem ranked_classRest : (classRest c).Ranked ranking k := by
  simp +decide [classRest, classMember, instanceMember, accessorMark, keyed, methodStep, fieldStep,
    propertyName, privateName, number, point, spaced, more, Rule.all, Rule.any, Rule.optional,
    keyword, word, token, gap]

/-! ### Statements -/

@[simp] theorem ranked_parenthesized : (parenthesized c).Ranked ranking k := by
  simp +decide [parenthesized, spaced, token, gap]

@[simp] theorem takes_declarator : declarator.Takes ranking := by
  simp [declarator, letDeclarator, Rule.any, keyword, word]

@[simp] theorem ranked_letDeclarator : letDeclarator.Ranked ranking k := by
  simp [letDeclarator, ownName, Rule.any, Rule.ahead, keyword, word, token, gap]

@[simp] theorem ranked_declarator : declarator.Ranked ranking k := by
  simp [declarator, Rule.any, keyword, word]

@[simp] theorem takes_declaration : (declaration c).Takes ranking := by
  simp [declaration, spaced]

@[simp] theorem ranked_declaration : (declaration c).Ranked ranking k := by
  simp +decide [declaration, declared, separated, ownName, spaced, Rule.all, Rule.optional, comma,
    word, gap]

@[simp] theorem ranked_loop : (loop c).Ranked ranking k := by
  simp +decide [loop, loopStart, Rule.all, Rule.optional, keyword, word, token, gap]

@[simp] theorem ranked_jump {w : Text} : (jump c w).Ranked ranking k := by
  simp [jump, label, Rule.all, Rule.optional, keyword, word, lineGap]

theorem ranked_keywordStatement : (keywordStatement c).Ranked ranking 9 := by
  simp +decide [keywordStatement, handlers, catchClause, switchCase, declared, ownName, label, more,
    spaced, Rule.all, Rule.any, Rule.optional, keyword, word, token, gap, lineGap]

theorem ranked_statement : (statement c).Ranked ranking 9 := by
  simp +decide [statement, ranked_keywordStatement, functionDeclaration, classDeclaration,
    expressionStatement, asyncMark, ownName, spaced, Rule.all, Rule.any, keyword, word, token, gap,
    lineGap]

/-! ### Symbols -/

theorem ranked_grammar (z : Symbol) : (grammar z).Ranked ranking z.rank := by
  cases z with
  | program => simp +decide [grammar, program, finish, point, Rule.all, gap]
  | statement c => exact ranked_statement
  | block c => simp +decide [grammar, block, Rule.all, gap, token]
  | expression c => simp +decide [grammar, expression, Rule.all, gap, comma]
  | assignment c =>
    cases hc : c.inGenerator <;>
      simp +decide [grammar, assignment, yield, asyncArrow, operation, asyncMark, arrowRest,
        ownName, operator, Rule.all, Rule.any, Rule.optional, keyword, word, token, gap, lineGap,
        hc]
  | conditional c => simp +decide [grammar, conditional, operator, Rule.all, token, gap]
  | binary c => simp +decide [grammar, binary, operator, Rule.all, gap]
  | unary c => simp +decide [grammar, unary, operator, spaced, Rule.any, token, gap, lineGap]
  | chain c =>
    simp +decide [grammar, chain, chainStart, metaProperty, callStep, memberStep, subscriptStep,
      optionalStep, templateStep, bracketed, propertyName, privateName, spaced, Rule.all, Rule.any,
      keyword, word, token, tokenNot, gap]
  | construction c =>
    simp +decide [grammar, construction, chainStart, metaProperty, memberStep, subscriptStep,
      templateStep, bracketed, propertyName, privateName, spaced, Rule.all, Rule.any, keyword, word,
      token, tokenNot, gap]
  | primary c =>
    simp +decide [grammar, primary, identifier, constant, parentheses, listed, quoted, number,
      enclosed, arrayItems, separated, more, regex, privateName, Rule.all, Rule.any, Rule.optional,
      Rule.ahead, keyword, word, token, comma, gap, lineGap]
  | arguments c =>
    simp +decide [grammar, arguments, enclosed, separated, more, Rule.all, Rule.optional, token,
      comma, gap]
  | template c => simp +decide [grammar, template, textMark, spaced, Rule.all, token, gap]
  | property c =>
    simp +decide [grammar, property, methodStep, keyed, Rule.all, Rule.any, token, word, gap]
  | classLiteral c =>
    simp +decide [grammar, classLiteral, ownName, more, Rule.all, Rule.optional, keyword, word, gap]
  | functionLiteral =>
    simp +decide [grammar, functionLiteral, asyncMark, ownName, more, Rule.all, Rule.any,
      Rule.optional, keyword, word, token, gap, lineGap]
  | parameters c =>
    cases hc : c.inGenerator <;>
      simp +decide [grammar, parameters, patternList, listed, separated, Rule.all, Rule.optional,
        token, comma, gap, hc]
  | bindingTarget c =>
    simp +decide [grammar, bindingTarget, identifier, patternProperty, enclosed, arrayItems,
      separated, more, spaced, Rule.all, Rule.any, Rule.optional, token, comma, word, gap]
  | bindingElement c => simp +decide [grammar, bindingElement]
  | element c inContent =>
    simp +decide [grammar, element, spaced, Rule.all, token, tokenNot, gap]

theorem takes_grammar (z : Symbol) (hz : z ≠ .program) : (grammar z).Takes ranking := by
  cases z with
  | program => exact absurd rfl hz
  | statement c =>
    simp +decide [grammar, statement, keywordStatement, functionDeclaration, classDeclaration,
      expressionStatement, loop, jump, label, asyncMark, spaced, Rule.all, Rule.any, keyword, word,
      token]
  | block c => simp +decide [grammar, block, Rule.all, token]
  | expression c | conditional c | binary c | bindingElement c =>
    simp [grammar, expression, conditional, binary, bindingElement]
  | assignment c =>
    cases hc : c.inGenerator <;>
      simp [grammar, assignment, yield, asyncArrow, operation, asyncMark, Rule.all, Rule.any,
        keyword, word, hc]
  | unary c => simp +decide [grammar, unary, operator, spaced, Rule.any, token]
  | chain c =>
    simp +decide [grammar, chain, chainStart, metaProperty, spaced, Rule.any, keyword, word]
  | construction c => simp [grammar, construction, Rule.all, keyword, word]
  | primary c =>
    simp +decide [grammar, primary, identifier, constant, parentheses, listed, quoted, number,
      enclosed, arrayItems, regex, privateName, Rule.all, Rule.any, keyword, word, token]
  | arguments c => simp +decide [grammar, arguments, enclosed, Rule.all, token]
  | template c => simp +decide [grammar, template, textMark, Rule.all]
  | property c => simp +decide [grammar, property, keyed, Rule.any, word]
  | classLiteral c => simp [grammar, classLiteral, Rule.all, keyword, word]
  | functionLiteral =>
    simp [grammar, functionLiteral, asyncMark, Rule.all, Rule.any, keyword, word]
  | parameters c =>
    cases hc : c.inGenerator <;>
      simp +decide [grammar, parameters, patternList, listed, Rule.all, token, hc]
  | bindingTarget c =>
    simp +decide [grammar, bindingTarget, identifier, enclosed, arrayItems, Rule.all, Rule.any,
      token, word]
  | element c inContent => simp +decide [grammar, element, Rule.all, tokenNot]

theorem ranking_fits : ranking.Fits grammar where
  pos z := by cases z <;> exact of_decide_eq_true rfl
  lt_top := rank_lt_top
  ranked := ranked_grammar
  takes := takes_grammar

end Grammar

/-! ## Scripts -/

/-- The tree of a script is what the grammar reads. -/
theorem parse_eq_some {s : Text} {t : Tree} : parse s = some t ↔
    (∃ k, Reads grammar (.ref .program) s (.found k [t] [])) ∧
      t.anyForm (· == .coverInitializer) = false := by
  constructor
  · intro h
    unfold parse at h
    split at h
    next k t' hread =>
      split at h
      · exact absurd h nofun
      next hcover =>
        cases h
        exact ⟨⟨k, .found_of_run _ hread⟩, Bool.eq_false_iff.mpr hcover⟩
    next => exact absurd h nofun
  · rintro ⟨⟨k, hread⟩, hcover⟩
    have hrun : read grammar (symbolsPerPoint * (s.length + 1)) .program s = .found k [t] [] :=
      hread.read_eq Grammar.ranking_fits
    simp [parse, hrun, hcover]

theorem parser_eq {s : Text} {t : Tree} (h : parse s = some t) :
    parser s = ⟨t.children, false⟩ := by
  rw [parser, h]
  rfl

/-- The parser makes a tree without errors of the scripts, and of no other text. -/
theorem parser_hasError {s : Text} :
    (parser s).hasError = false ↔ ∃ t, parse s = some t ∧ (parser s).root = t := by
  unfold parser
  cases hparse : parse s with
  | none => simp
  | some t =>
    obtain ⟨⟨k, hread⟩, -⟩ := parse_eq_some.mp hparse
    obtain ⟨us, -, hnode⟩ := reads_node_found.mp (reads_ref.mp hread)
    cases hnode
    simp [Script.root, Tree.children]

end CompositeScript.Fragment
