import CompositeScript.Proofs.Fragment.Gaps
import CompositeScript.Proofs.Fragment.Reading

/-!
Reading is local.

What a rule reads before a closing bracket does not depend on what follows the bracket. A rule looks
beyond the end of what it finds: at the next token, to see that no more belongs to it, and across
the gap before it, and a comment might hide the bracket. So the end has to be calm. In return
whatever is read from a calm place ends at a calm place if it can be given up again, that is unless
a firm token is in it; and a place is calm from which something is read up to a calm place. Calmness
thus passes backwards along what is found and forwards along what is given up.
-/

namespace CompositeScript.Fragment

/-- The length of the token at the front of a text, if it is a token that is not firm. -/
def Lexeme.light (s : Text) : Option Nat :=
  (word s).or ((mark "," [] s).or ((chainMark s).or (privateName s)))

/-- From here on, gaps and tokens that are not firm end before the tail. -/
inductive Calm (tail : Text) : Text → Prop
  | stop {u v : Text} {ts : List Tree} : gap? (u ++ tail) = some (ts, v ++ tail) →
      Lexeme.light (v ++ tail) = none → Calm tail u
  | next {u v : Text} {ts : List Tree} {n : Nat} : gap? (u ++ tail) = some (ts, v ++ tail) →
      Lexeme.light (v ++ tail) = some n → n ≤ v.length → Calm tail (v.drop n) → Calm tail u

namespace Calm

variable {tail u v : Text} {ts : List Tree} {n : Nat}

theorem of_gap (hgap : gap? (u ++ tail) = some (ts, v ++ tail)) (h : Calm tail v) :
    Calm tail u := by
  have hstops := gap?_eq_some.mpr (gap?_eq_some.mp hgap).rest_stops
  cases h with
  | stop hgap' hlight =>
    rw [hstops] at hgap'
    cases List.append_cancel_right (Prod.mk.inj (Option.some.inj hgap')).2
    exact .stop hgap hlight
  | next hgap' hlight hn hrest =>
    rw [hstops] at hgap'
    cases List.append_cancel_right (Prod.mk.inj (Option.some.inj hgap')).2
    exact .next hgap hlight hn hrest

theorem gap (h : Calm tail u) : ∃ ts v, gap? (u ++ tail) = some (ts, v ++ tail) ∧ Calm tail v := by
  cases h with
  | @stop _ v ts hgap hlight =>
    have hstops := gap?_eq_some.mpr (gap?_eq_some.mp hgap).rest_stops
    exact ⟨ts, v, hgap, .stop hstops hlight⟩
  | @next _ v ts n hgap hlight hn hrest =>
    have hstops := gap?_eq_some.mpr (gap?_eq_some.mp hgap).rest_stops
    exact ⟨ts, v, hgap, .next hstops hlight hn hrest⟩

theorem of_light (hstops : gap? (u ++ tail) = some ([], u ++ tail))
    (hlight : Lexeme.light (u ++ tail) = some n) (hn : n ≤ u.length) (h : Calm tail (u.drop n)) :
    Calm tail u :=
  .next hstops hlight hn h

theorem light (hstops : gap? (u ++ tail) = some ([], u ++ tail))
    (hlight : Lexeme.light (u ++ tail) = some n) (h : Calm tail u) :
    n ≤ u.length ∧ Calm tail (u.drop n) := by
  cases h with
  | stop hgap' hlight' =>
    rw [hstops] at hgap'
    cases List.append_cancel_right (Prod.mk.inj (Option.some.inj hgap')).2
    rw [hlight] at hlight'
    exact absurd hlight' nofun
  | next hgap' hlight' hn hrest =>
    rw [hstops] at hgap'
    cases List.append_cancel_right (Prod.mk.inj (Option.some.inj hgap')).2
    rw [hlight] at hlight'
    cases hlight'
    exact ⟨hn, hrest⟩

end Calm

/-- A kind of token that is local before the closing bracket `b`. -/
structure Lexeme.Local (b : CodePoint) (l : Lexeme) : Prop where
  /-- Whether a token starts does not depend on what follows the bracket. -/
  opens : ∀ {u w : Text} (w' : Text), l.opens (u ++ b :: w) = false →
    l.opens (u ++ b :: w') = false
  /-- A token that ends before the bracket does not depend on what follows the bracket. -/
  length : ∀ {u w : Text} {n : Nat} (w' : Text), l.length (u ++ b :: w) = some n → n ≤ u.length →
    l.opens (u ++ b :: w') = true ∧ l.length (u ++ b :: w') = some n
  /-- A token starts at a calm place if it ends at one. -/
  calm : ∀ {u w : Text} {n : Nat}, l.length (u ++ b :: w) = some n → n ≤ u.length →
    Calm (b :: w) (u.drop n) → Calm (b :: w) u
  /-- A token that is not firm ends at a calm place if it starts at one. -/
  light : l.isFirm = false → ∀ {u w : Text} {n : Nat}, l.length (u ++ b :: w) = some n →
    Calm (b :: w) u → n ≤ u.length ∧ Calm (b :: w) (u.drop n)

namespace Rule

variable {σ : Type}

/-- The rule reads gaps and local tokens that are not firm. -/
def IsToken (b : CodePoint) : Rule σ → Prop
  | leaf _ l => l.Local b ∧ l.isFirm = false
  | blanks _ => True
  | seq a c | alt a c => a.IsToken b ∧ c.IsToken b
  | _ => False

/-- Whether the rule could read on does not depend on what follows the bracket. -/
def IsProbe (b : CodePoint) : Rule σ → Prop
  | done => True
  | leaf _ l => (∀ {u w : Text} (w' : Text), l.opens (u ++ b :: w) = true →
      l.opens (u ++ b :: w') = true) ∧ ∀ s, l.opens s = true → (l.length s).isSome = true
  | blanks _ => True
  | seq a c => a.IsToken b ∧ c.IsProbe b
  | alt a c => a.IsProbe b ∧ c.IsProbe b
  | refuse a => a.IsProbe b
  | _ => False

/-- The tokens of the rule are local, and it looks ahead only by probes. -/
def IsLocal (b : CodePoint) : Rule σ → Prop
  | leaf _ l => l.Local b
  | seq a c | alt a c => a.IsLocal b ∧ c.IsLocal b
  | many a | adapt _ a => a.IsLocal b
  | refuse a => a.IsProbe b
  | grow _ a step => a.IsLocal b ∧ ∀ t, (step t).IsLocal b
  | done | blanks _ | ref _ => True

theorem IsToken.isLocal {b : CodePoint} {r : Rule σ} (h : r.IsToken b) : r.IsLocal b := by
  induction r with
  | leaf => exact h.1
  | blanks => trivial
  | seq a c iha ihc => exact ⟨iha h.1, ihc h.2⟩
  | alt a c iha ihc => exact ⟨iha h.1, ihc h.2⟩
  | done | ref | many | refuse | adapt | grow => exact h.elim

end Rule

section

variable {σ : Type} {G : σ → Rule σ} {r : Rule σ} {b : CodePoint} {u v w : Text} {ts : List Tree}
  {k : Bool} {rest : Text} {n : Nat}

theorem drop_eq_append (h : (u ++ b :: w).drop n = v ++ b :: w) : n ≤ u.length ∧ v = u.drop n := by
  have hlength := congrArg List.length h
  simp only [List.length_drop, List.length_append, List.length_cons] at hlength
  have hn : n ≤ u.length := by omega
  rw [List.drop_append_of_le_length hn] at h
  exact ⟨hn, (List.append_cancel_right h).symm⟩

/-- A suffix of the text is the tail, or longer, if it has a suffix that is. -/
theorem eq_append_of_suffix {mid : Text} (hmid : mid <:+ u ++ b :: w) (h : v ++ b :: w <:+ mid) :
    ∃ v', mid = v' ++ b :: w := by
  obtain ⟨p, rfl⟩ := h
  exact ⟨p ++ v, (List.append_assoc _ _ _).symm⟩

theorem leaf_found_local {f : Form} {l : Lexeme} (hl : l.Local b) (w' : Text)
    (hlength : l.length (u ++ b :: w) = some n) (hn : n ≤ u.length) :
    Reads G (.leaf f l) (u ++ b :: w')
      (.found l.isFirm [.leaf .plain f ((u ++ b :: w).take n)] (u.drop n ++ b :: w')) := by
  obtain ⟨hopens, hlength'⟩ := hl.length w' hlength hn
  refine reads_leaf_found.mpr ⟨n, hopens, hlength', rfl, ?_, ?_⟩
  · simp only [List.take_append_of_le_length hn]
  · simp only [List.drop_append_of_le_length hn]

theorem gap?_local (hb : IsClosing b) (w' : Text)
    (h : gap? (u ++ b :: w) = some (ts, v ++ b :: w)) :
    gap? (u ++ b :: w') = some (ts, v ++ b :: w') :=
  gap?_eq_some.mpr ((gap?_eq_some.mp h).append_closing hb)

theorem gap?_of_calm (hb : IsClosing b) (w' : Text) (hcalm : Calm (b :: w) u)
    (h : gap? (u ++ b :: w) = some (ts, rest)) :
    ∃ v, rest = v ++ b :: w ∧ Calm (b :: w) v ∧ gap? (u ++ b :: w') = some (ts, v ++ b :: w') := by
  obtain ⟨us, v, hgap, hv⟩ := hcalm.gap
  rw [h] at hgap
  cases hgap
  exact ⟨v, rfl, hv, gap?_local hb w' h⟩

/-- What a rule of gaps and tokens finds from a calm place ends at one, and does not depend on what
follows the bracket. -/
theorem Rule.IsToken.reads (hb : IsClosing b) (w' : Text) (hr : r.IsToken b)
    (hcalm : Calm (b :: w) u) :
    (∀ k ts rest, Reads G r (u ++ b :: w) (.found k ts rest) →
      k = false ∧ ∃ v, rest = v ++ b :: w ∧ Calm (b :: w) v ∧
        Reads G r (u ++ b :: w') (.found false ts (v ++ b :: w'))) ∧
    (Reads G r (u ++ b :: w) .absent → Reads G r (u ++ b :: w') .absent) := by
  induction r generalizing u with
  | leaf f l =>
    refine ⟨fun k ts rest h => ?_, fun h => ?_⟩
    · obtain ⟨n, -, hlength, rfl, rfl, rfl⟩ := reads_leaf_found.mp h
      obtain ⟨hn, hv⟩ := hr.1.light hr.2 hlength hcalm
      rw [List.drop_append_of_le_length hn]
      exact ⟨hr.2, u.drop n, rfl, hv, hr.2 ▸ leaf_found_local hr.1 w' hlength hn⟩
    · exact reads_leaf_absent.mpr (hr.1.opens w' (reads_leaf_absent.mp h))
  | blanks accept =>
    refine ⟨fun k ts rest h => ?_, fun h => ?_⟩
    · obtain ⟨rfl, hgap, haccept⟩ := reads_blanks_found.mp h
      obtain ⟨v, rfl, hv, hgap'⟩ := gap?_of_calm hb w' hcalm hgap
      exact ⟨rfl, v, rfl, hv, reads_blanks_found.mpr ⟨rfl, hgap', haccept⟩⟩
    · obtain ⟨ts, rest, hgap, haccept⟩ := reads_blanks_absent.mp h
      obtain ⟨v, rfl, -, hgap'⟩ := gap?_of_calm hb w' hcalm hgap
      exact reads_blanks_absent.mpr ⟨ts, _, hgap', haccept⟩
  | seq a c iha ihc =>
    refine ⟨fun k ts rest h => ?_, fun h => ?_⟩
    · obtain ⟨k₁, ts₁, mid, k₂, ts₂, ha, hc, rfl, rfl⟩ := reads_seq_found.mp h
      obtain ⟨rfl, v, rfl, hv, ha'⟩ := (iha hr.1 hcalm).1 _ _ _ ha
      obtain ⟨rfl, v', rfl, hv', hc'⟩ := (ihc hr.2 hv).1 _ _ _ hc
      exact ⟨rfl, v', rfl, hv', reads_seq_found.mpr ⟨_, _, _, _, _, ha', hc', rfl, rfl⟩⟩
    · rcases reads_seq_absent.mp h with ha | ⟨ts, mid, ha, hc⟩
      · exact reads_seq_absent.mpr (.inl ((iha hr.1 hcalm).2 ha))
      · obtain ⟨-, v, rfl, hv, ha'⟩ := (iha hr.1 hcalm).1 _ _ _ ha
        exact reads_seq_absent.mpr (.inr ⟨_, _, ha', (ihc hr.2 hv).2 hc⟩)
  | alt a c iha ihc =>
    refine ⟨fun k ts rest h => ?_, fun h => ?_⟩
    · rcases reads_alt_found.mp h with ha | ⟨ha, hc⟩
      · obtain ⟨rfl, v, rfl, hv, ha'⟩ := (iha hr.1 hcalm).1 _ _ _ ha
        exact ⟨rfl, v, rfl, hv, reads_alt_found.mpr (.inl ha')⟩
      · obtain ⟨rfl, v, rfl, hv, hc'⟩ := (ihc hr.2 hcalm).1 _ _ _ hc
        exact ⟨rfl, v, rfl, hv, reads_alt_found.mpr (.inr ⟨(iha hr.1 hcalm).2 ha, hc'⟩)⟩
    · obtain ⟨ha, hc⟩ := reads_alt_absent.mp h
      exact reads_alt_absent.mpr ⟨(iha hr.1 hcalm).2 ha, (ihc hr.2 hcalm).2 hc⟩
  | done | ref | many | refuse | adapt | grow => exact hr.elim

/-- From a calm place, whether a probe could read on does not depend on what follows the bracket. -/
theorem Rule.IsProbe.reads (hb : IsClosing b) (w' : Text) (hr : r.IsProbe b)
    (hcalm : Calm (b :: w) u) :
    (∀ k ts rest, Reads G r (u ++ b :: w) (.found k ts rest) →
      ∃ k' ts' rest', Reads G r (u ++ b :: w') (.found k' ts' rest')) ∧
    (Reads G r (u ++ b :: w) .absent → Reads G r (u ++ b :: w') .absent) := by
  induction r generalizing u with
  | done =>
    exact ⟨fun _ _ _ _ => ⟨_, _, _, reads_done.mpr rfl⟩, fun h => absurd (reads_done.mp h) nofun⟩
  | leaf f l =>
    refine ⟨fun k ts rest h => ?_, fun h => ?_⟩
    · obtain ⟨n, hopens, -⟩ := reads_leaf_found.mp h
      have hopens' := hr.1 w' hopens
      obtain ⟨m, hm⟩ := Option.isSome_iff_exists.mp (hr.2 _ hopens')
      exact ⟨_, _, _, reads_leaf_found.mpr ⟨m, hopens', hm, rfl, rfl, rfl⟩⟩
    · refine reads_leaf_absent.mpr (Bool.eq_false_iff.mpr fun hopens => ?_)
      exact absurd (hr.1 w hopens) (by rw [reads_leaf_absent.mp h]; exact nofun)
  | blanks accept =>
    have htoken := IsToken.reads (G := G) (r := .blanks accept) hb w' trivial hcalm
    refine ⟨fun k ts rest h => ?_, htoken.2⟩
    obtain ⟨-, v, -, -, h'⟩ := htoken.1 k ts rest h
    exact ⟨_, _, _, h'⟩
  | seq a c iha ihc =>
    have htoken := IsToken.reads (G := G) hb w' hr.1 hcalm
    refine ⟨fun k ts rest h => ?_, fun h => ?_⟩
    · obtain ⟨k₁, ts₁, mid, k₂, ts₂, ha, hc, rfl, rfl⟩ := reads_seq_found.mp h
      obtain ⟨-, v, rfl, hv, ha'⟩ := htoken.1 _ _ _ ha
      obtain ⟨_, _, _, hc'⟩ := (ihc hr.2 hv).1 _ _ _ hc
      exact ⟨_, _, _, reads_seq_found.mpr ⟨_, _, _, _, _, ha', hc', rfl, rfl⟩⟩
    · rcases reads_seq_absent.mp h with ha | ⟨ts, mid, ha, hc⟩
      · exact reads_seq_absent.mpr (.inl (htoken.2 ha))
      · obtain ⟨-, v, rfl, hv, ha'⟩ := htoken.1 _ _ _ ha
        exact reads_seq_absent.mpr (.inr ⟨_, _, ha', (ihc hr.2 hv).2 hc⟩)
  | alt a c iha ihc =>
    refine ⟨fun k ts rest h => ?_, fun h => ?_⟩
    · rcases reads_alt_found.mp h with ha | ⟨ha, hc⟩
      · obtain ⟨_, _, _, ha'⟩ := (iha hr.1 hcalm).1 _ _ _ ha
        exact ⟨_, _, _, reads_alt_found.mpr (.inl ha')⟩
      · obtain ⟨_, _, _, hc'⟩ := (ihc hr.2 hcalm).1 _ _ _ hc
        exact ⟨_, _, _, reads_alt_found.mpr (.inr ⟨(iha hr.1 hcalm).2 ha, hc'⟩)⟩
    · obtain ⟨ha, hc⟩ := reads_alt_absent.mp h
      exact reads_alt_absent.mpr ⟨(iha hr.1 hcalm).2 ha, (ihc hr.2 hcalm).2 hc⟩
  | refuse a ih =>
    refine ⟨fun k ts rest h => ?_, fun h => ?_⟩
    · obtain ⟨ha, -⟩ := reads_refuse_found.mp h
      exact ⟨_, _, _, reads_refuse_found.mpr ⟨(ih hr hcalm).2 ha, rfl, rfl, rfl⟩⟩
    · obtain ⟨_, _, _, ha⟩ := reads_refuse_absent.mp h
      exact reads_refuse_absent.mpr ((ih hr hcalm).1 _ _ _ ha)
  | ref | many | adapt | grow => exact hr.elim

/-- Where the reading ends before the bracket, and what then follows. -/
structure FoundLocal (b : CodePoint) (w s rest : Text) (k : Bool) (again : Text → Text → Prop) :
    Prop where
  suffix : rest <:+ s
  back : ∀ {u v : Text}, s = u ++ b :: w → rest = v ++ b :: w → Calm (b :: w) v →
    Calm (b :: w) u ∧ again u v
  on : ∀ {u : Text}, s = u ++ b :: w → k = false → Calm (b :: w) u →
    ∃ v, rest = v ++ b :: w ∧ Calm (b :: w) v

namespace FoundLocal

variable {s mid : Text} {k' : Bool} {again again' : Text → Text → Prop}

theorem refl (h : ∀ {u}, s = u ++ b :: w → Calm (b :: w) u → again u u) :
    FoundLocal b w s s k again where
  suffix := List.suffix_refl s
  back := by
    rintro u v rfl hv hcalm
    cases List.append_cancel_right hv
    exact ⟨hcalm, h rfl hcalm⟩
  on := fun hs _ hcalm => ⟨_, hs, hcalm⟩

theorem trans (h : FoundLocal b w s mid k again) (h' : FoundLocal b w mid rest k' again') :
    FoundLocal b w s rest (k || k') fun u v => ∃ m, again u m ∧ again' m v where
  suffix := h'.suffix.trans h.suffix
  back := by
    rintro u v rfl rfl hcalm
    obtain ⟨m, rfl⟩ := eq_append_of_suffix h.suffix h'.suffix
    obtain ⟨hm, hagain'⟩ := h'.back rfl rfl hcalm
    obtain ⟨hu, hagain⟩ := h.back rfl rfl hm
    exact ⟨hu, m, hagain, hagain'⟩
  on := by
    intro u hs hk hcalm
    obtain ⟨hk, hk'⟩ := Bool.or_eq_false_iff.mp hk
    obtain ⟨m, hm, hcalm⟩ := h.on hs hk hcalm
    exact h'.on hm hk' hcalm

theorem imp (h : FoundLocal b w s rest k again)
    (himp : ∀ {u v}, s = u ++ b :: w → Calm (b :: w) u → again u v → again' u v) :
    FoundLocal b w s rest k again' where
  suffix := h.suffix
  back := by
    intro u v hs hrest hcalm
    obtain ⟨hu, hagain⟩ := h.back hs hrest hcalm
    exact ⟨hu, himp hs hu hagain⟩
  on := h.on

end FoundLocal

/-- A reading before the bracket is the same whatever follows the bracket. -/
def LocalReading (G : σ → Rule σ) (b : CodePoint) (w w' : Text) (r : Rule σ) (s : Text) :
    Reading → Prop
  | .absent => ∀ {u : Text}, s = u ++ b :: w → Calm (b :: w) u → Reads G r (u ++ b :: w') .absent
  | .broken => True
  | .found k ts rest => FoundLocal b w s rest k fun u v =>
      Reads G r (u ++ b :: w') (.found k ts (v ++ b :: w'))

/-- If every rule of the grammar is local, what is read before the bracket does not depend on what
follows it. -/
theorem inductive_local (hb : IsClosing b) (hG : ∀ z, (G z).IsLocal b) (w w' : Text) :
    Inductive G (fun r s x => r.IsLocal b → LocalReading G b w w' r s x)
      (fun join step t s k u rest => (∀ t, (step t).IsLocal b) → FoundLocal b w s rest k
        fun p v => Grows G join step t (p ++ b :: w') k u (v ++ b :: w')) where
  done s _ := .refl fun _ _ => reads_done.mpr rfl
  leaf_absent := by
    rintro f l s hopens hl u rfl -
    exact reads_leaf_absent.mpr (hl.opens w' hopens)
  leaf_found := by
    rintro f l s n - hlength hl
    refine ⟨List.drop_suffix n s, ?_, ?_⟩
    · rintro u v rfl hrest hcalm
      obtain ⟨hn, rfl⟩ := drop_eq_append hrest
      exact ⟨hl.calm hlength hn hcalm, leaf_found_local hl w' hlength hn⟩
    · rintro u rfl hk hcalm
      obtain ⟨hn, hv⟩ := hl.light hk hlength hcalm
      exact ⟨u.drop n, List.drop_append_of_le_length hn, hv⟩
  blanks_absent := by
    rintro accept s ts rest hgap haccept - u rfl hcalm
    obtain ⟨v, -, -, hgap'⟩ := gap?_of_calm hb w' hcalm hgap
    exact reads_blanks_absent.mpr ⟨ts, _, hgap', haccept⟩
  blanks_found := by
    rintro accept s ts rest hgap haccept -
    refine ⟨(gap?_eq_some.mp hgap).suffix, ?_, ?_⟩
    · rintro u v rfl rfl hcalm
      exact ⟨.of_gap hgap hcalm,
        reads_blanks_found.mpr ⟨rfl, gap?_local hb w' hgap, haccept⟩⟩
    · rintro u rfl - hcalm
      obtain ⟨v, hv, hcalm', -⟩ := gap?_of_calm hb w' hcalm hgap
      exact ⟨v, hv, hcalm'⟩
  ref := by
    rintro z s (_ | _ | ⟨k, ts, rest⟩) h -
    · exact fun hs hcalm => reads_ref.mpr (h (hG z) hs hcalm)
    · trivial
    · exact (h (hG z)).imp fun _ _ hz => reads_ref.mpr hz
  seq_absent h hr := fun hs hcalm => reads_seq_absent.mpr (.inl (h hr.1 hs hcalm))
  seq_stopped := by
    intro a c s ts mid ha hc hr u hs hcalm
    obtain ⟨m, rfl, hm⟩ := (ha hr.1).on hs rfl hcalm
    obtain ⟨-, ha'⟩ := (ha hr.1).back hs rfl hm
    exact reads_seq_absent.mpr (.inr ⟨ts, _, ha', hc hr.2 rfl hm⟩)
  seq_found ha hc hr := ((ha hr.1).trans (hc hr.2)).imp fun _ _ ⟨_, ha', hc'⟩ =>
    reads_seq_found.mpr ⟨_, _, _, _, _, ha', hc', rfl, rfl⟩
  alt_absent ha hc hr := fun hs hcalm =>
    reads_alt_absent.mpr ⟨ha hr.1 hs hcalm, hc hr.2 hs hcalm⟩
  alt_left ha hr := (ha hr.1).imp fun _ _ ha' => reads_alt_found.mpr (.inl ha')
  alt_right ha hc hr := (hc hr.2).imp fun hs hcalm hc' =>
    reads_alt_found.mpr (.inr ⟨ha hr.1 hs hcalm, hc'⟩)
  many_stop ha hr := .refl fun hs hcalm => reads_many_found.mpr (.stop (ha hr hs hcalm))
  many_next ha hmany hr := ((ha hr).trans (hmany hr)).imp fun _ _ ⟨_, ha', hmany'⟩ =>
    reads_many_found.mpr (.next ha' (reads_many_found.mp hmany'))
  refuse_absent := by
    rintro a s k ts rest ha - hr u rfl hcalm
    exact reads_refuse_absent.mpr ((Rule.IsProbe.reads hb w' hr hcalm).1 k ts rest ha)
  refuse_found := by
    intro a s ha _ hr
    refine .refl ?_
    rintro u rfl hcalm
    exact reads_refuse_found.mpr ⟨(Rule.IsProbe.reads hb w' hr hcalm).2 ha, rfl, rfl, rfl⟩
  adapt_absent h hr := fun hs hcalm => reads_adapt_absent.mpr (.inl (h hr hs hcalm))
  adapt_stopped := by
    intro view a s ts rest ha hview hr u hs hcalm
    obtain ⟨m, rfl, hm⟩ := (ha hr).on hs rfl hcalm
    obtain ⟨-, ha'⟩ := (ha hr).back hs rfl hm
    exact reads_adapt_absent.mpr (.inr ⟨ts, _, ha', hview⟩)
  adapt_found ha hview hr := (ha hr).imp fun _ _ ha' => reads_adapt_found.mpr ⟨_, ha', hview⟩
  grow_absent h hr := fun hs hcalm => reads_grow_absent.mpr (h hr.1 hs hcalm)
  grow_found ha hgrows hr := ((ha hr.1).trans (hgrows hr.2)).imp fun _ _ ⟨_, ha', hgrows'⟩ =>
    reads_grow_found.mpr ⟨_, _, _, _, _, ha', hgrows', rfl, rfl⟩
  grows_stop h hr := .refl fun hs hcalm => .stop (h (hr _) hs hcalm)
  grows_loose := by
    intro join step t u s rest h hjoin hr
    refine .refl fun hs hcalm => ?_
    obtain ⟨m, rfl, hm⟩ := (h (hr _)).on hs rfl hcalm
    obtain ⟨-, h'⟩ := (h (hr _)).back hs rfl hm
    exact .loose h' hjoin
  grows_next h hjoin hgrows hr := ((h (hr _)).trans (hgrows hr)).imp fun _ _ ⟨_, h', hgrows'⟩ =>
    .next h' hjoin hgrows'

/-- What is read up to a calm place before the bracket starts at a calm place, and does not depend
on what follows the bracket. -/
theorem Reads.append_closing (hb : IsClosing b) (hG : ∀ z, (G z).IsLocal b) (hr : r.IsLocal b)
    (w' : Text) (h : Reads G r (u ++ b :: w) (.found k ts (v ++ b :: w)))
    (hcalm : Calm (b :: w) v) :
    Calm (b :: w) u ∧ Reads G r (u ++ b :: w') (.found k ts (v ++ b :: w')) :=
  ((inductive_local hb hG w w').reads h hr).back rfl rfl hcalm

end

end CompositeScript.Fragment
