import CompositeScript.Proofs.Simulation
import CompositeScript.CommandLine

/-! The policy for slots without a node generator.

Under the policy `fail` a run goes as it does under any other, up to the first slot that would be
skipped, and stops there. No frame in between holds the fault up unless a hook rescues it, so the
strict run complains of the missing node generator exactly where the other one warns
(`strict_stops_where_plain_skips`). -/

namespace CompositeScript

/-- The outcome of a strict step against that of the plain one from the same run. -/
structure Stops {α : Type} (run : Run) (plain strict : Except Fault α × Run) : Prop where
  warnings : run.warnings <+: plain.2.warnings
  fault : plain.1 ≠ .error .noNodeGenerator
  same : plain.2.warnings = run.warnings → strict = plain
  stops : plain.2.warnings ≠ run.warnings → strict.1 = .error .noNodeGenerator

namespace Stops

variable {α β : Type} {run : Run} {machine : Machine}

theorem of_quiet {x : Gen α} (hx : x.Quiet) :
    Stops run (x.perform machine run) (x.perform machine run) := by
  obtain ⟨answer, hfault, hanswer⟩ := hx.leaves machine
  rw [hanswer run]
  exact ⟨List.prefix_rfl, hfault, fun _ => rfl, fun h => (h rfl).elim⟩

/-- Warnings stay: a step after a warning cannot take it back. -/
theorem warnings_ne {before middle after : List Text} (h : before <+: middle)
    (hne : middle ≠ before) (h' : middle <+: after) : after ≠ before := by
  rintro rfl
  exact hne (h'.eq_of_length_le h.length_le)

theorem bind {x y : Gen α} {k l : α → Gen β}
    (hx : Stops run (x.perform machine run) (y.perform machine run))
    (hk : ∀ a after, Stops after ((k a).perform machine after) ((l a).perform machine after)) :
    Stops run ((x >>= k).perform machine run) ((y >>= l).perform machine run) := by
  obtain ⟨hwarnings, hfault, hsame, hstops⟩ := hx
  by_cases hskip : (x.perform machine run).2.warnings = run.warnings
  · -- Both runs are still together.
    have hy := hsame hskip
    rcases hanswer : x.perform machine run with ⟨f | a, after⟩
    · rw [hanswer] at hy hwarnings hskip hfault
      rw [Gen.perform_bind_error hanswer, Gen.perform_bind_error hy]
      refine ⟨hwarnings, ?_, fun _ => rfl, fun h => (h hskip).elim⟩
      exact fun h => hfault (congrArg Except.error (Except.error.inj h))
    · rw [hanswer] at hy hskip
      rw [Gen.perform_bind_ok hanswer, Gen.perform_bind_ok hy]
      obtain ⟨hwarnings', hfault', hsame', hstops'⟩ := hk a after
      simp only at hskip
      rw [hskip] at hwarnings' hsame' hstops'
      exact ⟨hwarnings', hfault', hsame', hstops'⟩
  · -- The strict run has stopped, and the plain one goes on with a warning.
    have hstrict : ((y >>= l).perform machine run).1 = .error .noNodeGenerator := by
      rcases hanswer : y.perform machine run with ⟨answer, after⟩
      have hstops := hstops hskip
      rw [hanswer] at hstops
      obtain rfl : answer = .error .noNodeGenerator := hstops
      rw [Gen.perform_bind_error hanswer]
    rcases hanswer : x.perform machine run with ⟨f | a, after⟩
    · rw [hanswer] at hwarnings hskip hfault
      rw [Gen.perform_bind_error hanswer]
      refine ⟨hwarnings, ?_, fun h => (hskip h).elim, fun _ => hstrict⟩
      exact fun h => hfault (congrArg Except.error (Except.error.inj h))
    · rw [hanswer] at hwarnings hskip
      rw [Gen.perform_bind_ok hanswer]
      obtain ⟨hwarnings', hfault', -, -⟩ := hk a after
      refine ⟨hwarnings.trans hwarnings', hfault', fun h => ?_, fun _ => hstrict⟩
      exact (warnings_ne hwarnings hskip hwarnings' h).elim

theorem nested {x y : Gen α} (maxDepth : Int)
    (h : ∀ run, Stops run (x.perform machine run) (y.perform machine run)) :
    Stops run ((Gen.nested maxDepth x).perform machine run)
      ((Gen.nested maxDepth y).perform machine run) := by
  obtain ⟨hwarnings, hfault, hsame, hstops⟩ := h { run with depth := run.depth + 1 }
  rw [Gen.perform_nested, Gen.perform_nested]
  split
  · exact ⟨List.prefix_rfl, by simp, fun _ => rfl, fun h => (h rfl).elim⟩
  · refine ⟨hwarnings, Gen.surfaced_ne_error (by simp) hfault, fun h => ?_, fun h => ?_⟩
    · rw [hsame h]
    · simp only [hstops h]
      rfl

end Stops

/-- Of two runs without a node generator and without rescues, the second is strict. -/
structure Strict (s : Scope) (o : Options) (s' : Scope) (o' : Options) : Prop where
  scope : s' = s
  options : o' = { o with policy := "fail" }
  policy : o.policy ≠ "fail"
  nodes : o.nodes = none
  hooks : ∀ name, ∀ h ∈ o.handlers.hooks name, h.all (fun h => !h.isRescue) = true

theorem slot_stops {g g' : Emitter} {v : Value} {s s' : Scope} {o o' : Options} {machine : Machine}
    {run : Run} (h : Strict s o s' o') :
    Stops run ((Slot.emit g v s o).perform machine run)
      ((Slot.emit g' v s' o').perform machine run) := by
  obtain ⟨rfl, rfl, hpolicy, hnodes, -⟩ := h
  have hplain := perform_slot g v s' hnodes machine run
  have hstrict := perform_slot g' v s' (o := { o with policy := "fail" }) hnodes machine run
  rw [if_neg hpolicy] at hplain
  rw [if_pos rfl] at hstrict
  rw [hplain, hstrict]
  exact ⟨List.prefix_append _ _, by simp, fun h => by simp at h, fun _ => rfl⟩

/-- A plain run and a strict one, side by side. -/
def strictSlots : Simulation where
  Step x y := ∀ machine run, Stops run (x.perform machine run) (y.perform machine run)
  Context := Strict
  Hooks h h' := h' = h ∧ h.all (fun h => !h.isRescue) = true
  quiet hx _ _ := .of_quiet hx
  record _ _ _ := ⟨List.prefix_rfl, by simp, fun _ => rfl, fun h => (h rfl).elim⟩
  bind hx hk machine run := (hx machine run).bind fun a after => hk a machine after
  calls h machine run := h machine.calls machine run
  nested := by
    rintro s s' o o' x y ⟨-, rfl, -, -, -⟩ h machine run
    exact .nested o.maxDepth fun run => h machine run
  rescue := by
    rintro x y ⟨-, hrescue⟩
    cases hrescue
  trace := by
    rintro label s s' o o' - ⟨rfl, -, -, -, -⟩ machine run
    exact .of_quiet (.display s')
  expression := by
    rintro s s' o o' v ⟨rfl, rfl, -, -, -⟩ machine run
    exact .of_quiet (Expression.emit_quiet o.expressions v s')
  function := by
    rintro s s' o o' v ⟨rfl, rfl, -, -, -⟩ machine run
    exact .of_quiet (Function.emit_quiet o v)
  slot _ _ h _ _ := slot_stops h
  hooks := by
    rintro s s' o o' name ⟨-, rfl, -, -, hhooks⟩
    exact .of_forall fun h hh => ⟨rfl, hhooks name h hh⟩
  scope := by
    rintro s s' o o' w - ⟨-, hoptions, hpolicy, hnodes, hhooks⟩
    exact ⟨rfl, hoptions, hpolicy, hnodes, hhooks⟩
  maxDepth := by
    rintro s s' o o' n - ⟨rfl, rfl, hpolicy, hnodes, hhooks⟩
    exact ⟨rfl, rfl, hpolicy, hnodes, hhooks⟩
  hook_eq h _ := h.1
  handlers := by
    rintro hs h' ⟨rfl, hall⟩
    rw [Hook.all] at hall
    obtain ⟨-, hall⟩ := Bool.and_eq_true_iff.mp hall
    refine ⟨hs, rfl, ?_⟩
    rintro s s' o o' ⟨rfl, rfl, hpolicy, hnodes, hhooks⟩
    exact ⟨rfl, rfl, hpolicy, hnodes, Handlers.all_hooks_merge hhooks hall⟩

end CompositeScript
