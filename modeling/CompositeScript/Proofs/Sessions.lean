import CompositeScript.Proofs.Run
import CompositeScript.Session

/-! Sessions, and the count of open calls that they carry along.

A call of the generator leaves the count as it found it, whatever happens inside. So no generation
can be told from one in a fresh session, however many have failed before: all that it owes to the
steps before it are the options in force. Those are read off the steps alone, from the last one
backwards (`Step.inForce`, `Step.savedAs`). -/

namespace CompositeScript

/-! ## The count of open calls -/

theorem depth_generateWithin (n : Nat) (v : Value) (scope : Scope) (o : Options) (machine : Machine)
    (run : Run) : ((generateWithin n v scope o).perform machine run).2.depth = run.depth := by
  cases n with
  | zero => rfl
  | succ n => exact Gen.depth_nested o.maxDepth _

theorem depth_generate (v : Value) (scope : Scope) (o : Options) (machine : Machine) (run : Run) :
    ((generate v scope o).perform machine run).2.depth = run.depth := by
  rw [generate, Gen.perform_bind_ok Gen.perform_read]
  exact depth_generateWithin machine.calls v scope o machine run

/-! ## Options in force -/

mutual

/-- The options in force after the steps, of which the last one comes first. -/
def Step.inForce : List Step → Options
  | [] => {}
  | .options o :: _ => o
  | .withHandlers hs :: steps => (inForce steps).withHandlers hs
  | .replace maxDepth policy :: steps =>
    let o := inForce steps
    { o with maxDepth := maxDepth.getD o.maxDepth, policy := policy.getD o.policy }
  | .load name :: steps => (savedAs name steps).getD (inForce steps)
  | .save _ :: steps => inForce steps
  | .hooksFor _ :: steps => inForce steps
  | .generate _ _ :: steps => inForce steps

/-- The options that were last saved under a name in the steps, of which the last one comes
first. -/
def Step.savedAs (name : Text) : List Step → Option Options
  | [] => none
  | .save other :: steps => if other = name then some (inForce steps) else savedAs name steps
  | .options _ :: steps => savedAs name steps
  | .withHandlers _ :: steps => savedAs name steps
  | .replace _ _ :: steps => savedAs name steps
  | .load _ :: steps => savedAs name steps
  | .hooksFor _ :: steps => savedAs name steps
  | .generate _ _ :: steps => savedAs name steps

end

namespace Session

variable {s : Session} {earlier : List Step}

/-- The session is what the steps, of which the last one comes first, leave behind. -/
structure Follows (earlier : List Step) (s : Session) : Prop where
  current : s.current = Step.inForce earlier
  saved : ∀ name, (s.saved.find? (·.1 = name)).map Prod.snd = Step.savedAs name earlier
  depth : s.depth = 0

theorem find?_store (s : Session) (name other : Text) :
    ((s.store name).saved.find? (·.1 = other)).map Prod.snd =
      if name = other then some s.current
      else (s.saved.find? (·.1 = other)).map Prod.snd := by
  rw [store, List.find?_append, List.find?_filter]
  by_cases h : name = other
  · subst h
    have hnone : s.saved.find? (fun e => e.1 ≠ name ∧ e.1 = name) = none :=
      List.find?_eq_none.mpr fun e _ he => by
        simp only [decide_eq_true_eq] at he
        exact he.1 he.2
    simp only [decide_eq_true_eq, hnone, Option.none_or, List.find?_singleton, decide_true, if_true,
      Option.map_some]
  · have hsame : (fun e : Text × Options => decide (e.1 ≠ name ∧ e.1 = other)) =
        fun e => decide (e.1 = other) := by
      funext e
      by_cases he : e.1 = other <;> simp [he, Ne.symm h]
    simp only [decide_eq_true_eq, hsame, List.find?_singleton, if_neg h, Option.or_none]

theorem Follows.step (h : s.Follows earlier) (x : Step) :
    (s.step x).1.Follows (x :: earlier) := by
  obtain ⟨hcurrent, hsaved, hdepth⟩ := h
  cases x with
  | options o => exact ⟨rfl, hsaved, hdepth⟩
  | withHandlers hs => exact ⟨by simp [Session.step, Step.inForce, hcurrent], hsaved, hdepth⟩
  | replace maxDepth policy =>
    exact ⟨by simp [Session.step, Step.inForce, hcurrent], hsaved, hdepth⟩
  | save name =>
    refine ⟨hcurrent, fun other => ?_, hdepth⟩
    simp only [Session.step, find?_store, Step.savedAs, hcurrent, hsaved]
  | load name =>
    have hname := hsaved name
    simp only [Session.step]
    cases hfind : s.saved.find? (·.1 = name) with
    | none =>
      rw [hfind] at hname
      exact ⟨by simp [Step.inForce, ← hname, hcurrent], hsaved, hdepth⟩
    | some e =>
      rw [hfind] at hname
      exact ⟨by simp [Step.inForce, ← hname], hsaved, hdepth⟩
  | hooksFor kind => exact ⟨hcurrent, hsaved, hdepth⟩
  | generate v scope =>
    refine ⟨hcurrent, hsaved, ?_⟩
    have hgenerate := depth_generate v scope s.current .standard { depth := s.depth }
    exact hgenerate.trans hdepth

theorem follows_nil : ({} : Session).Follows [] := ⟨rfl, fun _ => rfl, rfl⟩

/-- The session after the steps. -/
def after (s : Session) : List Step → Session
  | [] => s
  | x :: steps => after (s.step x).1 steps

theorem Follows.after (h : s.Follows earlier) (steps : List Step) :
    (s.after steps).Follows (steps.reverse ++ earlier) := by
  induction steps generalizing s earlier with
  | nil => exact h
  | cons x steps ih => simpa [Session.after] using ih (h.step x)

theorem length_run (s : Session) (steps : List Step) : (s.run steps).length = steps.length := by
  induction steps generalizing s with
  | nil => rfl
  | cons x steps ih => simp [run, ih]

theorem run_append (s : Session) (steps others : List Step) :
    s.run (steps ++ others) = s.run steps ++ (s.after steps).run others := by
  induction steps generalizing s with
  | nil => rfl
  | cons x steps ih => simp [run, ih, Session.after]

theorem Follows.step_generate (h : s.Follows earlier) (v : Value) (scope : Scope) :
    (s.step (.generate v scope)).2 =
      .generated (CompositeScript.generate v scope (Step.inForce earlier)).result := by
  simp only [Session.step, h.current, h.depth, Gen.result]

theorem run_generate (s : Session) (steps later : List Step) (v : Value) (scope : Scope) :
    (s.run (steps ++ .generate v scope :: later))[steps.length]? =
      some ((s.after steps).step (.generate v scope)).2 := by
  rw [run_append, List.getElem?_append_right (by rw [length_run]), length_run, Nat.sub_self]
  rfl

end Session

/-- **A generation in a session is as good as alone.** A call of the generator leaves the count of
open calls as it found it, whether it answers or fails. So in a session the outcome of a generation,
its warnings and its trace included, is that of a fresh session with the options that the earlier
steps have put in force. -/
theorem session_generates_as_alone :
    (∀ (v : Value) (scope : Scope) (o : Options) (machine : Machine) (run : Run),
      ((generate v scope o).perform machine run).2.depth = run.depth) ∧
    (∀ (earlier later : List Step) (v : Value) (scope : Scope),
      let alone := (generate v scope (Step.inForce earlier.reverse)).result
      (Session.run {} (earlier ++ .generate v scope :: later))[earlier.length]? =
        some (.generated alone) ∧
      Session.run { current := Step.inForce earlier.reverse } [.generate v scope] =
        [.generated alone]) := by
  refine ⟨depth_generate, fun earlier later v scope => ⟨?_, rfl⟩⟩
  have hfollows := Session.follows_nil.after earlier
  rw [List.append_nil] at hfollows
  rw [Session.run_generate, hfollows.step_generate]

end CompositeScript
