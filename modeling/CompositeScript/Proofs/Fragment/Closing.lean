import CompositeScript.Proofs.Fragment.LocalGrammar
import CompositeScript.Proofs.Fragment.Trees

/-!
What ends with a closing bracket.

The bracket itself is the last that is read, so nothing behind it matters at all: the same trees are
read whatever follows.
-/

namespace CompositeScript.Fragment

open Rule

section

variable {σ : Type} {G : σ → Rule σ} {b : CodePoint} {r : Rule σ}

/-- The rule ends by reading the bracket. -/
inductive Rule.Closes (G : σ → Rule σ) (b : CodePoint) : Rule σ → Prop
  | mark {f : Form} {k : Bool} {p : Text} : p = [b] →
      Closes G b (leaf f (.plain (Lexeme.mark p []) k))
  | ref {z : σ} : Closes G b (G z) → Closes G b (ref z)
  | seq {a c : Rule σ} : Closes G b c → Closes G b (seq a c)
  | alt {a c : Rule σ} : Closes G b a → Closes G b c → Closes G b (alt a c)
  | adapt {view : List Tree → Option (List Tree)} {a : Rule σ} : Closes G b a →
      Closes G b (adapt view a)

theorem calm_nil (hb : IsClosing b) (w : Text) : Calm (b :: w) [] := by
  refine Solid.calm (solid_of_plainStart ?_)
  rcases hb with rfl | rfl <;> rfl

/-- What ends with the bracket is read the same whatever follows the bracket. -/
theorem Rule.Closes.reads (hclose : r.Closes G b) (hb : IsClosing b) (hG : ∀ z, (G z).IsLocal b)
    (hr : r.IsLocal b) {s w : Text} {k : Bool} {ts : List Tree}
    (h : Reads G r s (.found k ts w)) : ∃ u, s = u ++ b :: w ∧ Calm (b :: w) u ∧
      ∀ w', Reads G r (u ++ b :: w') (.found k ts w') := by
  induction hclose generalizing s k ts with
  | mark hp =>
    subst hp
    obtain ⟨n, -, hn, rfl, rfl, rfl⟩ := reads_leaf_found.mp h
    obtain ⟨t, rfl, rfl, -⟩ := eq_of_mark hn
    refine ⟨[], rfl, calm_nil hb _, fun w' => ?_⟩
    have hmark : Lexeme.mark [b] [] (b :: w') = some 1 := by
      cases w' <;> simp [Lexeme.mark, Text.startsWith, Lexeme.starts]
    exact reads_leaf_found.mpr ⟨1, by simp [Lexeme.plain, hmark], hmark, rfl, rfl, rfl⟩
  | ref _ ih =>
    obtain ⟨u, rfl, hcalm, hu⟩ := ih (hG _) (reads_ref.mp h)
    exact ⟨u, rfl, hcalm, fun w' => .ref (hu w')⟩
  | seq _ ih =>
    obtain ⟨k₁, ts₁, mid, k₂, ts₂, ha, hc, rfl, rfl⟩ := reads_seq_found.mp h
    obtain ⟨m, rfl, hcalm, hm⟩ := ih hr.2 hc
    have hfound := (inductive_local hb hG w w).reads ha hr.1
    obtain ⟨p, rfl⟩ := hfound.suffix
    rw [← List.append_assoc] at ha ⊢
    refine ⟨p ++ m, rfl, (ha.append_closing hb hG hr.1 w hcalm).1, fun w' => ?_⟩
    exact (ha.append_closing hb hG hr.1 w' hcalm).2.seq (hm w')
  | alt _ _ iha ihc =>
    rcases reads_alt_found.mp h with ha | ⟨ha, hc⟩
    · obtain ⟨u, rfl, hcalm, hu⟩ := iha hr.1 ha
      exact ⟨u, rfl, hcalm, fun w' => (hu w').alt_left⟩
    · obtain ⟨u, rfl, hcalm, hu⟩ := ihc hr.2 hc
      refine ⟨u, rfl, hcalm, fun w' => ?_⟩
      exact (Reads.alt_right ((inductive_local hb hG w w').reads ha hr.1 rfl hcalm)).mpr (hu w')
  | adapt _ ih =>
    obtain ⟨us, ha, hview⟩ := reads_adapt_found.mp h
    obtain ⟨u, rfl, hcalm, hu⟩ := ih hr ha
    exact ⟨u, rfl, hcalm, fun w' => reads_adapt_found.mpr ⟨us, hu w', hview⟩⟩

end

namespace Grammar

theorem closes_block (c : Context) : Closes grammar '\x7d' (ref (.block c)) :=
  .ref (.adapt (.seq (.seq (.seq (.mark rfl)))))

theorem closes_listed (c : Context) : Closes grammar ')' (listed c (token ")")) :=
  .seq (.seq (.alt (.seq (.seq (.alt (.mark rfl) (.seq (.seq (.seq (.mark rfl)))))))
    (.seq (.mark rfl))))

theorem closes_functionRest (isAsync isGenerator : Bool) :
    Closes grammar '\x7d' (functionRest isAsync isGenerator) :=
  .seq (.seq (.adapt (closes_block _)))

theorem closes_functionLiteral : Closes grammar '\x7d' (ref .functionLiteral) :=
  .ref (.alt (.adapt (.seq (.seq (.seq (closes_functionRest _ _)))))
    (.alt (.adapt (.seq (.seq (.seq (.seq (closes_functionRest _ _))))))
      (.alt (.adapt (.seq (.seq (.seq (.seq (.seq (closes_functionRest _ _)))))))
        (.adapt (.seq (.seq (.seq (.seq (.seq (.seq (closes_functionRest _ _)))))))))))

end Grammar

/-- A bracket at the end of what is read shields it from the rest of the text. -/
theorem Reads.relocate {b : CodePoint} {r : Rule Symbol} {s w : Text} {k : Bool} {ts : List Tree}
    (h : Reads grammar r s (.found k ts w)) (hb : IsClosing b) (hclose : r.Closes grammar b)
    (hr : r.IsLocal b) (hkeeps : r.KeepsText) :
    (∃ u, Tree.texts ts = u ++ [b]) ∧
      ∀ w', Reads grammar r (Tree.texts ts ++ w') (.found k ts w') := by
  obtain ⟨u, rfl, -, hu⟩ := hclose.reads hb (grammar_isLocal hb) hr h
  have htexts : Tree.texts ts = u ++ [b] := by
    have := h.texts grammar_keepsText hkeeps
    rw [List.append_cons] at this
    exact List.append_cancel_right this
  exact ⟨⟨u, htexts⟩, fun w' => by simpa [htexts] using hu w'⟩

end CompositeScript.Fragment
