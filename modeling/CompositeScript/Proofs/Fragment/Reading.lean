import CompositeScript.Fragment.Rule
import Mathlib.Tactic.Common

/-!
What a rule reads, whatever the fuel.

More fuel changes no reading but a broken one, so `Reads G r s x` (enough fuel gives `x`, which is
not broken) is a function of the text. Every kind of rule has one lemma that says when it is absent
and one that says what it finds; all further reasoning about texts goes through them.
-/

namespace CompositeScript.Fragment

namespace Reading

theorem absent_ne_broken : absent ≠ broken := nofun

theorem found_ne_broken {k : Bool} {ts : List Tree} {rest : Text} : found k ts rest ≠ broken :=
  nofun

/-- `y` is `x`, or more than the broken reading `x`. -/
def Below (x y : Reading) : Prop := x = broken ∨ x = y

theorem Below.refl (x : Reading) : Below x x := .inr rfl

theorem Below.eq {x y : Reading} (h : Below x y) (hx : x ≠ broken) : y = x :=
  (h.resolve_left hx).symm

theorem Below.adapt {x y : Reading} (h : Below x y) (view : List Tree → Option (List Tree)) :
    Below (x.adapt view) (y.adapt view) := by
  rcases h with rfl | rfl
  · exact .inl rfl
  · exact .refl _

theorem Below.behind {x y : Reading} (h : Below x y) (f : Bool) (ts : List Tree) :
    Below (x.behind f ts) (y.behind f ts) := by
  rcases h with rfl | rfl
  · exact .inl rfl
  · exact .refl _

theorem Below.andThen {x y : Reading} {next next' : Reader} (h : Below x y)
    (hnext : ∀ s, Below (next s) (next' s)) : Below (x.andThen next) (y.andThen next') := by
  rcases h with rfl | rfl
  · exact .inl rfl
  · cases x with
    | absent | broken => exact .refl _
    | found f ts rest => exact (hnext rest).behind f ts

end Reading

open Reading

attribute [local simp] Rule.run andThen behind stopped Reading.adapt

theorem repeated_below {read read' : Reader} (h : ∀ s, Below (read s) (read' s)) {n m : Nat}
    (hnm : n ≤ m) (s : Text) : Below (repeated read n s) (repeated read' m s) := by
  induction n generalizing m s with
  | zero => exact .inl rfl
  | succ n ih =>
    obtain ⟨m, rfl⟩ : ∃ k, m = k + 1 := ⟨m - 1, by omega⟩
    have hread := h s
    simp only [repeated]
    rcases hread with hread | hread
    · rw [hread]; exact .inl rfl
    · rw [← hread]
      cases read s with
      | absent | broken => exact .refl _
      | found f ts rest => exact (ih (by omega) rest).behind f ts

theorem grown_below {join : Tree → Tree → Option Tree} {read read' : Tree → Reader}
    (h : ∀ t s, Below (read t s) (read' t s)) {n m : Nat} (hnm : n ≤ m) (base : Tree) (s : Text) :
    Below (grown join read n base s) (grown join read' m base s) := by
  induction n generalizing m base s with
  | zero => exact .inl rfl
  | succ n ih =>
    obtain ⟨m, rfl⟩ : ∃ k, m = k + 1 := ⟨m - 1, by omega⟩
    have hread := h base s
    simp only [grown]
    rcases hread with hread | hread
    · rw [hread]; exact .inl rfl
    · rw [← hread]
      rcases read base s with _ | _ | ⟨f, _ | ⟨step, _ | _⟩, rest⟩ <;> try exact .refl _
      cases hjoin : join base step with
      | none => simp only [hjoin]; exact .refl _
      | some t => simp only [hjoin]; exact (ih (by omega) t rest).behind f []

section

variable {σ : Type}

theorem Rule.run_below {call call' : σ → Reader} (h : ∀ x s, Below (call x s) (call' x s))
    {n m : Nat} (hnm : n ≤ m) (r : Rule σ) (s : Text) :
    Below (r.run n call s) (r.run m call' s) := by
  induction r generalizing s with
  | done | leaf | blanks => exact .refl _
  | ref x => exact h x s
  | seq a b iha ihb => exact (iha s).andThen ihb
  | alt a b iha ihb =>
    simp only [run]
    rcases iha s with ha | ha
    · rw [ha]; exact .inl rfl
    · rw [← ha]
      cases run n call a s with
      | absent => exact ihb s
      | broken | found => exact .refl _
  | many a ih => exact repeated_below ih hnm s
  | refuse a ih =>
    simp only [run]
    rcases ih s with ha | ha
    · rw [ha]; exact .inl rfl
    · rw [← ha]; exact .refl _
  | adapt view a ih => exact (ih s).adapt view
  | grow join a b iha ihb =>
    simp only [run]
    rcases iha s with ha | ha
    · rw [ha]; exact .inl rfl
    · rw [← ha]
      rcases run n call a s with _ | _ | ⟨f, _ | ⟨base, _ | _⟩, rest⟩ <;> try exact .refl _
      exact (grown_below ihb hnm base rest).behind f []

theorem read_below (G : σ → Rule σ) {n m : Nat} (hnm : n ≤ m) (x : σ) (s : Text) :
    Below (read G n x s) (read G m x s) := by
  induction n generalizing m x s with
  | zero => exact .inl rfl
  | succ n ih =>
    obtain ⟨m, rfl⟩ : ∃ k, m = k + 1 := ⟨m - 1, by omega⟩
    exact Rule.run_below (fun x s => ih (by omega) x s) (by omega) (G x) s

/-- A rule reads `x`, given enough fuel. -/
def Reads (G : σ → Rule σ) (r : Rule σ) (s : Text) (x : Reading) : Prop :=
  x ≠ .broken ∧ ∃ n, ∀ m ≥ n, r.run m (read G m) s = x

variable {G : σ → Rule σ} {a b r : Rule σ} {s : Text} {x y : Reading}

theorem Reads.of_run (n : Nat) (h : r.run n (read G n) s = x) (hx : x ≠ .broken) :
    Reads G r s x := by
  refine ⟨hx, n, ?_⟩
  intro m hm
  have hbelow := Rule.run_below (fun y s => read_below G hm y s) hm r s
  rw [h] at hbelow
  exact hbelow.eq hx

theorem Reads.absent_of_run (n : Nat) (h : r.run n (read G n) s = .absent) :
    Reads G r s .absent :=
  .of_run n h Reading.absent_ne_broken

theorem Reads.found_of_run {k : Bool} {ts : List Tree} {rest : Text} (n : Nat)
    (h : r.run n (read G n) s = .found k ts rest) : Reads G r s (.found k ts rest) :=
  .of_run n h Reading.found_ne_broken

theorem Reads.det (hx : Reads G r s x) (hy : Reads G r s y) : x = y := by
  obtain ⟨-, n, hn⟩ := hx
  obtain ⟨-, m, hm⟩ := hy
  exact (hn (max n m) (Nat.le_max_left n m)).symm.trans (hm (max n m) (Nat.le_max_right n m))

/-- One amount of fuel is enough for a reading. -/
theorem reads_iff : Reads G r s x ↔ x ≠ .broken ∧ ∃ n, r.run n (read G n) s = x :=
  ⟨fun ⟨hx, n, hn⟩ => ⟨hx, n, hn n (Nat.le_refl n)⟩, fun ⟨hx, _, hn⟩ => .of_run _ hn hx⟩

/-- Two readings, with the fuel of the one that needs more. -/
theorem Reads.both {s' : Text} (ha : Reads G a s x) (hb : Reads G b s' y) :
    ∃ n, a.run n (read G n) s = x ∧ b.run n (read G n) s' = y := by
  obtain ⟨-, n, hn⟩ := ha
  obtain ⟨-, m, hm⟩ := hb
  exact ⟨max n m, hn _ (Nat.le_max_left n m), hm _ (Nat.le_max_right n m)⟩

variable {k : Bool} {ts us : List Tree} {rest : Text} {f : Form} {l : Lexeme}

/-! ## Rules that read by themselves -/

theorem reads_done : Reads G .done s x ↔ x = .found false [] s := by
  rw [reads_iff]
  simp only [Rule.run, exists_const]
  constructor
  · exact fun h => h.2.symm
  · rintro rfl; exact ⟨nofun, rfl⟩

theorem reads_leaf_absent : Reads G (.leaf f l) s .absent ↔ l.opens s = false := by
  rw [reads_iff]
  cases hopens : l.opens s <;> cases hlength : l.length s <;> simp [hopens, hlength]

theorem reads_leaf_found : Reads G (.leaf f l) s (.found k ts rest) ↔
    ∃ n, l.opens s = true ∧ l.length s = some n ∧ k = l.isFirm ∧
      ts = [.leaf .plain f (s.take n)] ∧ rest = s.drop n := by
  rw [reads_iff]
  cases hopens : l.opens s <;> cases hlength : l.length s <;>
    simp [hopens, hlength, eq_comm]

theorem reads_blanks_absent {accept : List Tree → Bool} : Reads G (.blanks accept) s .absent ↔
    ∃ ts rest, gap? s = some (ts, rest) ∧ accept ts = false := by
  rw [reads_iff]
  rcases hgap : gap? s with _ | ⟨ts, rest⟩
  · simp [hgap]
  · cases haccept : accept ts <;> simp [hgap, haccept]

theorem reads_blanks_found {accept : List Tree → Bool} :
    Reads G (.blanks accept) s (.found k ts rest) ↔
      k = false ∧ gap? s = some (ts, rest) ∧ accept ts = true := by
  rw [reads_iff]
  rcases hgap : gap? s with _ | ⟨us, rest⟩
  · simp [hgap]
  · cases haccept : accept us <;> simp [hgap, haccept] <;> grind

theorem reads_ref {z : σ} : Reads G (.ref z) s x ↔ Reads G (G z) s x := by
  simp only [reads_iff]
  refine and_congr_right fun hx => ⟨?_, ?_⟩
  · rintro ⟨_ | n, hn⟩
    · exact absurd hn.symm hx
    · exact ⟨n, hn⟩
  · rintro ⟨n, hn⟩
    exact ⟨n + 1, hn⟩

/-! ## Rules made of rules -/

theorem reads_seq_absent : Reads G (.seq a b) s .absent ↔ Reads G a s .absent ∨
    ∃ ts rest, Reads G a s (.found false ts rest) ∧ Reads G b rest .absent := by
  constructor
  · intro h
    obtain ⟨-, n, hn⟩ := reads_iff.mp h
    simp only [Rule.run] at hn
    rcases ha : a.run n (read G n) s with _ | _ | ⟨k, ts, rest⟩
    · exact .inl (.of_run _ ha nofun)
    · simp [ha] at hn
    · rcases hb : b.run n (read G n) rest with _ | _ | ⟨k', us, rest'⟩
      · cases k
        · exact .inr ⟨ts, rest, .of_run _ ha nofun, .of_run _ hb nofun⟩
        · simp [ha, hb] at hn
      · simp [ha, hb] at hn
      · simp [ha, hb] at hn
  · rintro (h | ⟨ts, rest, ha, hb⟩)
    · obtain ⟨-, n, hn⟩ := reads_iff.mp h
      exact .of_run n (by simp only [Rule.run, hn, andThen]) nofun
    · obtain ⟨n, ha, hb⟩ := ha.both hb
      exact .of_run n (by simp [ha, hb]) nofun

theorem reads_seq_found : Reads G (.seq a b) s (.found k ts rest) ↔
    ∃ k₁ ts₁ mid k₂ ts₂, Reads G a s (.found k₁ ts₁ mid) ∧ Reads G b mid (.found k₂ ts₂ rest) ∧
      k = (k₁ || k₂) ∧ ts = ts₁ ++ ts₂ := by
  constructor
  · intro h
    obtain ⟨-, n, hn⟩ := reads_iff.mp h
    simp only [Rule.run] at hn
    rcases ha : a.run n (read G n) s with _ | _ | ⟨k₁, ts₁, mid⟩
    · simp [ha] at hn
    · simp [ha] at hn
    · rcases hb : b.run n (read G n) mid with _ | _ | ⟨k₂, ts₂, rest'⟩
      · cases k₁ <;> simp [ha, hb] at hn
      · simp [ha, hb] at hn
      · simp only [ha, hb, andThen, behind, found.injEq] at hn
        obtain ⟨rfl, rfl, rfl⟩ := hn
        exact ⟨k₁, ts₁, mid, k₂, ts₂, .of_run _ ha nofun, .of_run _ hb nofun, rfl, rfl⟩
  · rintro ⟨k₁, ts₁, mid, k₂, ts₂, ha, hb, rfl, rfl⟩
    obtain ⟨n, ha, hb⟩ := ha.both hb
    exact .of_run n (by simp only [Rule.run, ha, hb, andThen, behind]) nofun

theorem reads_alt_absent : Reads G (.alt a b) s .absent ↔
    Reads G a s .absent ∧ Reads G b s .absent := by
  constructor
  · intro h
    obtain ⟨-, n, hn⟩ := reads_iff.mp h
    simp only [Rule.run] at hn
    rcases ha : a.run n (read G n) s with _ | _ | ⟨k, ts, rest⟩ <;> simp only [ha] at hn
    · exact ⟨.of_run _ ha nofun, .of_run _ hn nofun⟩
    · exact absurd hn nofun
    · exact absurd hn nofun
  · rintro ⟨ha, hb⟩
    obtain ⟨n, ha, hb⟩ := ha.both hb
    exact .of_run n (by simp only [Rule.run, ha, hb]) nofun

theorem reads_alt_found : Reads G (.alt a b) s (.found k ts rest) ↔
    Reads G a s (.found k ts rest) ∨ Reads G a s .absent ∧ Reads G b s (.found k ts rest) := by
  constructor
  · intro h
    obtain ⟨-, n, hn⟩ := reads_iff.mp h
    simp only [Rule.run] at hn
    rcases ha : a.run n (read G n) s with _ | _ | ⟨k, ts, rest⟩ <;> simp only [ha] at hn
    · exact .inr ⟨.of_run _ ha nofun, .of_run _ hn nofun⟩
    · exact absurd hn nofun
    · exact .inl (hn ▸ .of_run _ ha nofun)
  · rintro (ha | ⟨ha, hb⟩)
    · obtain ⟨-, n, hn⟩ := reads_iff.mp ha
      exact .of_run n (by simp only [Rule.run, hn]) nofun
    · obtain ⟨n, ha, hb⟩ := ha.both hb
      exact .of_run n (by simp only [Rule.run, ha, hb]) nofun

theorem reads_refuse_absent : Reads G (.refuse a) s .absent ↔
    ∃ k ts rest, Reads G a s (.found k ts rest) := by
  constructor
  · intro h
    obtain ⟨-, n, hn⟩ := reads_iff.mp h
    simp only [Rule.run] at hn
    rcases ha : a.run n (read G n) s with _ | _ | ⟨k, ts, rest⟩ <;> simp only [ha] at hn
    · exact absurd hn nofun
    · exact absurd hn nofun
    · exact ⟨k, ts, rest, .of_run _ ha nofun⟩
  · rintro ⟨k, ts, rest, ha⟩
    obtain ⟨-, n, hn⟩ := reads_iff.mp ha
    exact .of_run n (by simp only [Rule.run, hn]) nofun

theorem reads_refuse_found : Reads G (.refuse a) s (.found k ts rest) ↔
    Reads G a s .absent ∧ k = false ∧ ts = [] ∧ rest = s := by
  constructor
  · intro h
    obtain ⟨-, n, hn⟩ := reads_iff.mp h
    simp only [Rule.run] at hn
    rcases ha : a.run n (read G n) s with _ | _ | ⟨k, ts, rest⟩ <;> simp only [ha] at hn
    · cases hn
      exact ⟨.of_run _ ha nofun, rfl, rfl, rfl⟩
    · exact absurd hn nofun
    · exact absurd hn nofun
  · rintro ⟨ha, rfl, rfl, rfl⟩
    obtain ⟨-, n, hn⟩ := reads_iff.mp ha
    exact .of_run n (by simp only [Rule.run, hn]) nofun

theorem reads_adapt_absent {view : List Tree → Option (List Tree)} :
    Reads G (.adapt view a) s .absent ↔ Reads G a s .absent ∨
      ∃ us rest, Reads G a s (.found false us rest) ∧ view us = none := by
  constructor
  · intro h
    obtain ⟨-, n, hn⟩ := reads_iff.mp h
    simp only [Rule.run] at hn
    rcases ha : a.run n (read G n) s with _ | _ | ⟨k, us, rest⟩
    · exact .inl (.of_run _ ha nofun)
    · simp [ha] at hn
    · rcases hview : view us with _ | ts <;> cases k <;>
        simp [ha, hview] at hn
      exact .inr ⟨us, rest, .of_run _ ha nofun, hview⟩
  · rintro (h | ⟨us, rest, ha, hview⟩)
    · obtain ⟨-, n, hn⟩ := reads_iff.mp h
      exact .of_run n (by simp only [Rule.run, hn, Reading.adapt]) nofun
    · obtain ⟨-, n, hn⟩ := reads_iff.mp ha
      exact .of_run n (by simp [hn, hview]) nofun

theorem reads_adapt_found {view : List Tree → Option (List Tree)} :
    Reads G (.adapt view a) s (.found k ts rest) ↔
      ∃ us, Reads G a s (.found k us rest) ∧ view us = some ts := by
  constructor
  · intro h
    obtain ⟨-, n, hn⟩ := reads_iff.mp h
    simp only [Rule.run] at hn
    rcases ha : a.run n (read G n) s with _ | _ | ⟨k, us, rest⟩
    · simp [ha] at hn
    · simp [ha] at hn
    · rcases hview : view us with _ | vs
      · cases k <;> simp [ha, hview] at hn
      · simp only [ha, Reading.adapt, hview, found.injEq] at hn
        obtain ⟨rfl, rfl, rfl⟩ := hn
        exact ⟨us, .of_run _ ha nofun, hview⟩
  · rintro ⟨us, ha, hview⟩
    obtain ⟨-, n, hn⟩ := reads_iff.mp ha
    exact .of_run n (by simp only [Rule.run, hn, Reading.adapt, hview]) nofun

theorem reads_node_absent : Reads G (.node f a) s .absent ↔ Reads G a s .absent := by
  simp [Rule.node, reads_adapt_absent]

theorem reads_node_found : Reads G (.node f a) s (.found k ts rest) ↔
    ∃ us, Reads G a s (.found k us rest) ∧ ts = [.node .plain f us] := by
  simp [Rule.node, reads_adapt_found, eq_comm]

theorem reads_role_absent {q : Role} : Reads G (.role q a) s .absent ↔ Reads G a s .absent := by
  simp [Rule.role, reads_adapt_absent]

theorem reads_role_found {q : Role} : Reads G (.role q a) s (.found k ts rest) ↔
    ∃ us, Reads G a s (.found k us rest) ∧ ts = us.map (Tree.withRole q) := by
  simp [Rule.role, reads_adapt_found, eq_comm]

namespace Reads

variable {mid : Text} {k' : Bool} {vs : List Tree}

theorem ref {z : σ} (h : Reads G (G z) s x) : Reads G (.ref z) s x := reads_ref.mpr h

theorem seq (ha : Reads G a s (.found k ts mid)) (hb : Reads G b mid (.found k' us rest)) :
    Reads G (.seq a b) s (.found (k || k') (ts ++ us) rest) :=
  reads_seq_found.mpr ⟨k, ts, mid, k', us, ha, hb, rfl, rfl⟩

theorem seq_absent (ha : Reads G a s (.found false ts mid)) (hb : Reads G b mid .absent) :
    Reads G (.seq a b) s .absent :=
  reads_seq_absent.mpr (.inr ⟨ts, mid, ha, hb⟩)

theorem alt_left (ha : Reads G a s (.found k ts rest)) :
    Reads G (.alt a b) s (.found k ts rest) :=
  reads_alt_found.mpr (.inl ha)

theorem alt_right (ha : Reads G a s .absent) : Reads G (.alt a b) s x ↔ Reads G b s x := by
  cases x with
  | absent => rw [reads_alt_absent, and_iff_right ha]
  | broken => exact iff_of_false (fun h => h.1 rfl) fun h => h.1 rfl
  | found k ts rest =>
    rw [reads_alt_found, and_iff_right ha, or_iff_right]
    exact fun h => absurd (ha.det h) nofun

theorem node (h : Reads G a s (.found k ts rest)) :
    Reads G (.node f a) s (.found k [.node .plain f ts] rest) :=
  reads_node_found.mpr ⟨ts, h, rfl⟩

theorem role {q : Role} (h : Reads G a s (.found k ts rest)) :
    Reads G (.role q a) s (.found k (ts.map (Tree.withRole q)) rest) :=
  reads_role_found.mpr ⟨ts, h, rfl⟩

theorem not_found (h : Reads G a s .absent) : ¬ Reads G a s (.found k ts rest) :=
  fun h' => absurd (h.det h') nofun

end Reads

/-! ## Repetitions -/

theorem behind_ne_absent (h : x ≠ .absent) (k : Bool) (ts : List Tree) :
    x.behind k ts ≠ .absent := by
  cases x with
  | absent => exact absurd rfl h
  | broken | found => exact nofun

theorem behind_eq_found {k' : Bool} : x.behind k' us = .found k ts rest ↔
    ∃ k₂ vs, x = .found k₂ vs rest ∧ k = (k' || k₂) ∧ ts = us ++ vs := by
  rcases x with _ | _ | ⟨k₂, vs, rest'⟩
  · cases k' <;> simp
  · simp
  · simp only [behind, found.injEq]
    constructor
    · rintro ⟨rfl, rfl, rfl⟩
      exact ⟨k₂, vs, ⟨rfl, rfl, rfl⟩, rfl, rfl⟩
    · rintro ⟨k₃, ws, ⟨rfl, rfl, rfl⟩, rfl, rfl⟩
      exact ⟨rfl, rfl, rfl⟩

/-- `a` reads the trees one after the other, and is absent from the rest. -/
inductive Repeats (G : σ → Rule σ) (a : Rule σ) : Text → Bool → List Tree → Text → Prop
  | stop {s : Text} : Reads G a s .absent → Repeats G a s false [] s
  | next {s mid rest : Text} {k k' : Bool} {ts us : List Tree} :
    Reads G a s (.found k ts mid) → Repeats G a mid k' us rest →
      Repeats G a s (k || k') (ts ++ us) rest

/-- Steps join to a tree, and behind the last no step is there or joins. -/
inductive Grows (G : σ → Rule σ) (join : Tree → Tree → Option Tree) (step : Tree → Rule σ) :
    Tree → Text → Bool → Tree → Text → Prop
  | stop {t : Tree} {s : Text} : Reads G (step t) s .absent → Grows G join step t s false t s
  | loose {t u : Tree} {s rest : Text} : Reads G (step t) s (.found false [u] rest) →
      join t u = none → Grows G join step t s false t s
  | next {t u v w : Tree} {s mid rest : Text} {k k' : Bool} :
    Reads G (step t) s (.found k [u] mid) → join t u = some v → Grows G join step v mid k' w rest →
      Grows G join step t s (k || k') w rest

theorem repeated_ne_absent (read : Reader) (n : Nat) (s : Text) : repeated read n s ≠ .absent := by
  induction n generalizing s with
  | zero => exact nofun
  | succ n ih =>
    rcases ha : read s with _ | _ | ⟨k, ts, rest⟩ <;> simp only [repeated, ha]
    · exact nofun
    · exact nofun
    · exact behind_ne_absent (ih rest) k ts

theorem repeats_of_repeated {n m : Nat} (h : repeated (a.run n (read G n)) m s = .found k ts rest) :
    Repeats G a s k ts rest := by
  induction m generalizing s k ts with
  | zero => exact absurd h nofun
  | succ m ih =>
    rcases ha : a.run n (read G n) s with _ | _ | ⟨k₁, ts₁, mid⟩ <;> simp only [repeated, ha] at h
    · cases h
      exact .stop (.of_run _ ha nofun)
    · exact absurd h nofun
    · obtain ⟨k₂, ts₂, hr, rfl, rfl⟩ := behind_eq_found.mp h
      exact .next (.of_run _ ha nofun) (ih hr)

/-- Enough fuel for every item is enough for the repetition, and for its length. -/
theorem Repeats.repeated (h : Repeats G a s k ts rest) :
    ∃ n, ∀ m ≥ n, ∀ i ≥ n, repeated (a.run m (read G m)) i s = .found k ts rest := by
  induction h with
  | stop ha =>
    obtain ⟨-, n, hn⟩ := ha
    refine ⟨n + 1, fun m hm i hi => ?_⟩
    obtain ⟨i, rfl⟩ : ∃ j, i = j + 1 := ⟨i - 1, by omega⟩
    simp only [Fragment.repeated, hn m (by omega)]
  | next ha _ ih =>
    obtain ⟨-, n, hn⟩ := ha
    obtain ⟨n', hn'⟩ := ih
    refine ⟨max n n' + 1, fun m hm i hi => ?_⟩
    obtain ⟨i, rfl⟩ : ∃ j, i = j + 1 := ⟨i - 1, by omega⟩
    simp only [Fragment.repeated, hn m (by omega), hn' m (by omega) i (by omega), behind]

theorem reads_many_found : Reads G (.many a) s (.found k ts rest) ↔ Repeats G a s k ts rest := by
  constructor
  · intro h
    obtain ⟨-, n, hn⟩ := reads_iff.mp h
    exact repeats_of_repeated hn
  · intro h
    obtain ⟨n, hn⟩ := h.repeated
    exact .of_run n (hn n (Nat.le_refl n) n (Nat.le_refl n)) nofun

section Grow

variable {join : Tree → Tree → Option Tree} {step : Tree → Rule σ} {t u : Tree}

theorem grown_ne_absent (join : Tree → Tree → Option Tree) (read : Tree → Reader) (n : Nat)
    (t : Tree) (s : Text) : grown join read n t s ≠ .absent := by
  induction n generalizing t s with
  | zero => exact nofun
  | succ n ih =>
    rcases ha : read t s with _ | _ | ⟨k, _ | ⟨u, _ | _⟩, mid⟩ <;> simp only [grown, ha]
    · exact nofun
    · exact nofun
    · exact nofun
    · cases hjoin : join t u with
      | none => cases k <;> simp
      | some v => exact behind_ne_absent (ih v mid) k []
    · exact nofun

theorem grows_of_grown {n m : Nat}
    (h : grown join (fun t => (step t).run n (read G n)) m t s = .found k ts rest) :
    ∃ u, ts = [u] ∧ Grows G join step t s k u rest := by
  induction m generalizing t s k ts with
  | zero => exact absurd h nofun
  | succ m ih =>
    rcases ha : (step t).run n (read G n) s with _ | _ | ⟨k₁, _ | ⟨u, _ | _⟩, mid⟩ <;>
      simp only [grown, ha] at h
    · cases h
      exact ⟨t, rfl, .stop (.of_run _ ha nofun)⟩
    · exact absurd h nofun
    · exact absurd h nofun
    · cases hjoin : join t u with
      | none =>
        cases k₁ <;> simp only [hjoin, Bool.false_eq_true, if_false, if_true] at h
        · cases h
          exact ⟨t, rfl, .loose (.of_run _ ha nofun) hjoin⟩
        · exact absurd h nofun
      | some v =>
        simp only [hjoin] at h
        obtain ⟨k₂, us, hg, rfl, rfl⟩ := behind_eq_found.mp h
        obtain ⟨w, rfl, hw⟩ := ih hg
        exact ⟨w, rfl, .next (.of_run _ ha nofun) hjoin hw⟩
    · exact absurd h nofun

/-- Enough fuel for every step is enough for the growth, and for its length. -/
theorem Grows.grown (h : Grows G join step t s k u rest) :
    ∃ n, ∀ m ≥ n, ∀ i ≥ n,
      grown join (fun t => (step t).run m (read G m)) i t s = .found k [u] rest := by
  induction h with
  | stop ha =>
    obtain ⟨-, n, hn⟩ := ha
    refine ⟨n + 1, fun m hm i hi => ?_⟩
    obtain ⟨i, rfl⟩ : ∃ j, i = j + 1 := ⟨i - 1, by omega⟩
    simp only [Fragment.grown, hn m (by omega)]
  | loose ha hjoin =>
    obtain ⟨-, n, hn⟩ := ha
    refine ⟨n + 1, fun m hm i hi => ?_⟩
    obtain ⟨i, rfl⟩ : ∃ j, i = j + 1 := ⟨i - 1, by omega⟩
    simp [Fragment.grown, hn m (by omega), hjoin]
  | next ha hjoin _ ih =>
    obtain ⟨-, n, hn⟩ := ha
    obtain ⟨n', hn'⟩ := ih
    refine ⟨max n n' + 1, fun m hm i hi => ?_⟩
    obtain ⟨i, rfl⟩ : ∃ j, i = j + 1 := ⟨i - 1, by omega⟩
    simp only [Fragment.grown, hn m (by omega), hjoin, hn' m (by omega) i (by omega), behind,
      List.nil_append]

theorem reads_grow_absent :
    Reads G (.grow join a step) s .absent ↔ Reads G a s .absent := by
  constructor
  · intro h
    obtain ⟨-, n, hn⟩ := reads_iff.mp h
    simp only [Rule.run] at hn
    rcases ha : a.run n (read G n) s with _ | _ | ⟨k, _ | ⟨t, _ | _⟩, mid⟩ <;> simp only [ha] at hn
    · exact .of_run _ ha nofun
    · exact absurd hn nofun
    · exact absurd hn nofun
    · exact absurd hn (behind_ne_absent (grown_ne_absent _ _ _ _ _) _ _)
    · exact absurd hn nofun
  · intro h
    obtain ⟨-, n, hn⟩ := reads_iff.mp h
    exact .of_run n (by simp only [Rule.run, hn]) nofun

theorem reads_grow_found :
    Reads G (.grow join a step) s (.found k ts rest) ↔
      ∃ k₁ t mid k₂ u, Reads G a s (.found k₁ [t] mid) ∧ Grows G join step t mid k₂ u rest ∧
        k = (k₁ || k₂) ∧ ts = [u] := by
  constructor
  · intro h
    obtain ⟨-, n, hn⟩ := reads_iff.mp h
    simp only [Rule.run] at hn
    rcases ha : a.run n (read G n) s with _ | _ | ⟨k₁, _ | ⟨t, _ | _⟩, mid⟩ <;> simp only [ha] at hn
    · exact absurd hn nofun
    · exact absurd hn nofun
    · exact absurd hn nofun
    · obtain ⟨k₂, us, hg, rfl, rfl⟩ := behind_eq_found.mp hn
      obtain ⟨u, rfl, hgrows⟩ := grows_of_grown hg
      exact ⟨k₁, t, mid, k₂, u, .of_run _ ha nofun, hgrows, rfl, rfl⟩
    · exact absurd hn nofun
  · rintro ⟨k₁, t, mid, k₂, u, ⟨-, n, hn⟩, hgrows, rfl, rfl⟩
    obtain ⟨n', hn'⟩ := hgrows.grown
    refine .of_run (max n n') ?_ nofun
    simp only [Rule.run, hn (max n n') (by omega), hn' (max n n') (by omega) (max n n') (by omega),
      behind, List.nil_append]

end Grow

end

/-! ## Induction -/

section

variable {σ : Type}

/-- What `P` says of a reading and `Q` of a growth follows, rule by rule, from what they say of the
readings it is made of. -/
structure Inductive (G : σ → Rule σ) (P : Rule σ → Text → Reading → Prop)
    (Q : (Tree → Tree → Option Tree) → (Tree → Rule σ) → Tree → Text → Bool → Tree → Text → Prop) :
    Prop where
  done : ∀ s, P .done s (.found false [] s)
  leaf_absent : ∀ {f l s}, l.opens s = false → P (.leaf f l) s .absent
  leaf_found : ∀ {f l s n}, l.opens s = true → l.length s = some n →
    P (.leaf f l) s (.found l.isFirm [.leaf .plain f (s.take n)] (s.drop n))
  blanks_absent : ∀ {accept s ts rest}, gap? s = some (ts, rest) → accept ts = false →
    P (.blanks accept) s .absent
  blanks_found : ∀ {accept s ts rest}, gap? s = some (ts, rest) → accept ts = true →
    P (.blanks accept) s (.found false ts rest)
  ref : ∀ {z s x}, P (G z) s x → P (.ref z) s x
  seq_absent : ∀ {a b s}, P a s .absent → P (.seq a b) s .absent
  seq_stopped : ∀ {a b s ts mid}, P a s (.found false ts mid) → P b mid .absent →
    P (.seq a b) s .absent
  seq_found : ∀ {a b s k ts mid k' us rest}, P a s (.found k ts mid) →
    P b mid (.found k' us rest) → P (.seq a b) s (.found (k || k') (ts ++ us) rest)
  alt_absent : ∀ {a b s}, P a s .absent → P b s .absent → P (.alt a b) s .absent
  alt_left : ∀ {a b s k ts rest}, P a s (.found k ts rest) → P (.alt a b) s (.found k ts rest)
  alt_right : ∀ {a b s k ts rest}, P a s .absent → P b s (.found k ts rest) →
    P (.alt a b) s (.found k ts rest)
  many_stop : ∀ {a s}, P a s .absent → P (.many a) s (.found false [] s)
  many_next : ∀ {a s k ts mid k' us rest}, P a s (.found k ts mid) →
    P (.many a) mid (.found k' us rest) → P (.many a) s (.found (k || k') (ts ++ us) rest)
  refuse_absent : ∀ {a s k ts rest}, Reads G a s (.found k ts rest) → P a s (.found k ts rest) →
    P (.refuse a) s .absent
  refuse_found : ∀ {a s}, Reads G a s .absent → P a s .absent → P (.refuse a) s (.found false [] s)
  adapt_absent : ∀ {view a s}, P a s .absent → P (.adapt view a) s .absent
  adapt_stopped : ∀ {view a s ts rest}, P a s (.found false ts rest) → view ts = none →
    P (.adapt view a) s .absent
  adapt_found : ∀ {view a s k ts us rest}, P a s (.found k ts rest) → view ts = some us →
    P (.adapt view a) s (.found k us rest)
  grow_absent : ∀ {join a step s}, P a s .absent → P (.grow join a step) s .absent
  grow_found : ∀ {join a step s k t mid k' u rest}, P a s (.found k [t] mid) →
    Q join step t mid k' u rest → P (.grow join a step) s (.found (k || k') [u] rest)
  grows_stop : ∀ {join step t s}, P (step t) s .absent → Q join step t s false t s
  grows_loose : ∀ {join step t u s rest}, P (step t) s (.found false [u] rest) →
    join t u = none → Q join step t s false t s
  grows_next : ∀ {join step t u v w s mid rest k k'}, P (step t) s (.found k [u] mid) →
    join t u = some v → Q join step v mid k' w rest → Q join step t s (k || k') w rest

namespace Inductive

variable {G : σ → Rule σ} {a r : Rule σ} {s rest : Text} {x : Reading} {k : Bool} {ts : List Tree}
  {P : Rule σ → Text → Reading → Prop}
  {Q : (Tree → Tree → Option Tree) → (Tree → Rule σ) → Tree → Text → Bool → Tree → Text → Prop}

theorem repeated (h : Inductive G P Q) {n m : Nat}
    (ha : ∀ s, a.run n (read G n) s ≠ .broken → P a s (a.run n (read G n) s))
    (hrun : repeated (a.run n (read G n)) m s = .found k ts rest) :
    P (.many a) s (.found k ts rest) := by
  induction m generalizing s k ts with
  | zero => exact absurd hrun nofun
  | succ m ih =>
    have has := ha s
    rcases hs : a.run n (read G n) s with _ | _ | ⟨k₁, ts₁, mid⟩ <;> rw [hs] at has <;>
      simp only [Fragment.repeated, hs] at hrun
    · cases hrun
      exact h.many_stop (has nofun)
    · exact absurd hrun nofun
    · obtain ⟨k₂, ts₂, hr, rfl, rfl⟩ := behind_eq_found.mp hrun
      exact h.many_next (has nofun) (ih hr)

theorem grown (h : Inductive G P Q) {join : Tree → Tree → Option Tree} {step : Tree → Rule σ}
    {t u : Tree} {n m : Nat}
    (hstep : ∀ t s, (step t).run n (read G n) s ≠ .broken →
      P (step t) s ((step t).run n (read G n) s))
    (hrun : grown join (fun t => (step t).run n (read G n)) m t s = .found k [u] rest) :
    Q join step t s k u rest := by
  induction m generalizing t s k with
  | zero => exact absurd hrun nofun
  | succ m ih =>
    have has := hstep t s
    rcases hs : (step t).run n (read G n) s with _ | _ | ⟨k₁, _ | ⟨v, _ | _⟩, mid⟩ <;>
      rw [hs] at has <;> simp only [Fragment.grown, hs] at hrun
    · cases hrun
      exact h.grows_stop (has nofun)
    · exact absurd hrun nofun
    · exact absurd hrun nofun
    · cases hjoin : join t v with
      | none =>
        cases k₁ <;> simp only [hjoin, Bool.false_eq_true, if_false, if_true] at hrun
        · cases hrun
          exact h.grows_loose (has nofun) hjoin
        · exact absurd hrun nofun
      | some w =>
        simp only [hjoin] at hrun
        obtain ⟨k₂, us, hg, rfl, hus⟩ := behind_eq_found.mp hrun
        rw [List.nil_append] at hus
        exact h.grows_next (has nofun) hjoin (ih (hus ▸ hg))
    · exact absurd hrun nofun

theorem run (h : Inductive G P Q) {n : Nat}
    (hcall : ∀ z s, read G n z s ≠ .broken → P (.ref z) s (read G n z s)) (r : Rule σ) (s : Text)
    (hrun : r.run n (read G n) s ≠ .broken) : P r s (r.run n (read G n) s) := by
  induction r generalizing s with
  | done => exact h.done s
  | leaf f l =>
    cases hopens : l.opens s with
    | false => simp only [Rule.run, hopens]; exact h.leaf_absent hopens
    | true =>
      cases hlength : l.length s with
      | none => simp [hopens, hlength] at hrun
      | some m => simp only [Rule.run, hopens, hlength]; exact h.leaf_found hopens hlength
  | blanks accept =>
    rcases hgap : gap? s with _ | ⟨ts, rest⟩
    · simp [hgap] at hrun
    · cases haccept : accept ts with
      | false => simp only [Rule.run, hgap, haccept]; exact h.blanks_absent hgap haccept
      | true => simp only [Rule.run, hgap, haccept]; exact h.blanks_found hgap haccept
  | ref z => exact hcall z s hrun
  | seq a b iha ihb =>
    have has := iha s
    simp only [Rule.run] at hrun ⊢
    rcases hs : a.run n (read G n) s with _ | _ | ⟨k, ts, mid⟩ <;> rw [hs] at has hrun <;>
      simp only [andThen] at hrun ⊢
    · exact h.seq_absent (has nofun)
    · exact absurd rfl hrun
    · have hbs := ihb mid
      rcases hm : b.run n (read G n) mid with _ | _ | ⟨k', us, rest⟩ <;> rw [hm] at hbs hrun <;>
        simp only [behind] at hrun ⊢
      · cases k
        · exact h.seq_stopped (has nofun) (hbs nofun)
        · exact absurd rfl hrun
      · exact absurd rfl hrun
      · exact h.seq_found (has nofun) (hbs nofun)
  | alt a b iha ihb =>
    have has := iha s
    have hbs := ihb s
    simp only [Rule.run] at hrun ⊢
    rcases hs : a.run n (read G n) s with _ | _ | ⟨k, ts, mid⟩ <;> rw [hs] at has <;>
      simp only [hs] at hrun ⊢
    · rcases hb : b.run n (read G n) s with _ | _ | ⟨k', us, rest⟩ <;> rw [hb] at hbs hrun
      · exact h.alt_absent (has nofun) (hbs nofun)
      · exact absurd rfl hrun
      · exact h.alt_right (has nofun) (hbs nofun)
    · exact absurd rfl hrun
    · exact h.alt_left (has nofun)
  | many a ih =>
    simp only [Rule.run] at hrun ⊢
    rcases hs : Fragment.repeated (a.run n (read G n)) n s with _ | _ | ⟨k, ts, mid⟩
    · exact absurd hs (repeated_ne_absent _ _ _)
    · exact absurd hs hrun
    · exact h.repeated ih hs
  | refuse a ih =>
    have has := ih s
    simp only [Rule.run] at hrun ⊢
    rcases hs : a.run n (read G n) s with _ | _ | ⟨k, ts, mid⟩ <;> rw [hs] at has <;>
      simp only [hs] at hrun ⊢
    · exact h.refuse_found (.of_run n hs nofun) (has nofun)
    · exact absurd rfl hrun
    · exact h.refuse_absent (.of_run n hs nofun) (has nofun)
  | adapt view a ih =>
    have has := ih s
    simp only [Rule.run] at hrun ⊢
    rcases hs : a.run n (read G n) s with _ | _ | ⟨k, ts, mid⟩ <;> rw [hs] at has hrun <;>
      simp only [Reading.adapt] at hrun ⊢
    · exact h.adapt_absent (has nofun)
    · exact absurd rfl hrun
    · cases hview : view ts with
      | none =>
        simp only [hview] at hrun ⊢
        cases k
        · exact h.adapt_stopped (has nofun) hview
        · exact absurd rfl hrun
      | some us => simp only; exact h.adapt_found (has nofun) hview
  | grow join a step iha ihstep =>
    have has := iha s
    simp only [Rule.run] at hrun ⊢
    rcases hs : a.run n (read G n) s with _ | _ | ⟨k, _ | ⟨t, _ | _⟩, mid⟩ <;> rw [hs] at has <;>
      simp only [hs] at hrun ⊢
    · exact h.grow_absent (has nofun)
    · exact absurd rfl hrun
    · exact absurd rfl hrun
    · rcases hg : Fragment.grown join (fun t => (step t).run n (read G n)) n t mid
        with _ | _ | ⟨k', us, rest⟩
      · exact absurd hg (grown_ne_absent _ _ _ _ _)
      · exact absurd (congrArg (behind k []) hg) hrun
      · obtain ⟨u, rfl, -⟩ := grows_of_grown hg
        exact h.grow_found (has nofun) (h.grown ihstep hg)
    · exact absurd rfl hrun

/-- The property holds of every reading. -/
theorem reads (h : Inductive G P Q) (hr : Reads G r s x) : P r s x := by
  obtain ⟨hx, n, rfl⟩ := reads_iff.mp hr
  have hcall : ∀ z s, read G n z s ≠ .broken → P (.ref z) s (read G n z s) := by
    clear hr hx
    induction n with
    | zero => exact fun z s hne => absurd rfl hne
    | succ n ih => exact fun z s hne => h.ref (h.run ih (G z) s hne)
  exact h.run hcall r s hx

end Inductive

end

end CompositeScript.Fragment
