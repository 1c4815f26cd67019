import CompositeScript.Proofs.Simulation

/-! The bound on nesting bounds every run.

Hooks may set another bound, install hooks that do, and call the generator on the value they were
given, so neither the value nor the bound in force gets smaller from call to call. But no bound that
occurs in the options is larger than the largest one (`Options.deepest`), and hooks only hand on
what occurs there. So a call inside that many open ones fails before it is routed: what routing
would do with it may be anything (`generateUpTo`), and without a limit on open calls the generator
is a total function all the same (`unlimited`). -/

namespace CompositeScript

/-! ## The largest bound -/

/-- The bound that a hook sets. -/
def Hook.bound? : Hook → Option Int
  | .maxDepth n => some n
  | _ => none

/-- The bounds on nesting in the settings: their own, and those that their hooks set. -/
def Settings.bounds (c : Settings) : List Int :=
  c.maxDepth :: c.handlers.occurring.filterMap Hook.bound?

/-- The bounds on nesting in the settings of a node generator. -/
def NodeGenerator.bounds : NodeGenerator → List Int
  | .generate c => c.bounds
  | .component => []
  | .telling => []

/-- The bounds on nesting that occur in the options, in their own settings or in those that their
node generator calls the generator with. -/
def Options.bounds (o : Options) : List Int :=
  o.toSettings.bounds ++ o.nodes.elim [] NodeGenerator.bounds

/-- The largest bound on nesting that occurs in the options. -/
def Options.deepest (o : Options) : Int := o.bounds.foldr max o.maxDepth

/-- The hook sets no bound larger than `M`. -/
def Hook.within (M : Int) (h : Hook) : Bool := h.bound?.all fun n => n ≤ M

theorem foldr_max_le_iff {ns : List Int} {n M : Int} :
    ns.foldr max n ≤ M ↔ n ≤ M ∧ ∀ k ∈ ns, k ≤ M := by
  induction ns with
  | nil => simp
  | cons k ns ih =>
    rw [List.foldr_cons, max_le_iff, ih, List.forall_mem_cons]
    tauto

theorem Settings.bounds_le_iff {c : Settings} {M : Int} :
    (∀ n ∈ c.bounds, n ≤ M) ↔ c.maxDepth ≤ M ∧ c.handlers.all (Hook.within M) = true := by
  rw [bounds, List.forall_mem_cons, Handlers.all_iff_occurring]
  refine and_congr_right fun _ => ⟨fun h hook hhook => ?_, fun h n hn => ?_⟩
  · cases hbound : hook.bound? with
    | none => simp [Hook.within, hbound]
    | some n => simpa [Hook.within, hbound] using h n (List.mem_filterMap.mpr ⟨hook, hhook, hbound⟩)
  · obtain ⟨hook, hhook, hbound⟩ := List.mem_filterMap.mp hn
    simpa [Hook.within, hbound] using h hook hhook

namespace Options

variable {o : Options} {M : Int}

theorem deepest_le_iff : o.deepest ≤ M ↔ o.maxDepth ≤ M ∧ o.handlers.all (Hook.within M) = true ∧
    ∀ n ∈ o.nodes.elim [] NodeGenerator.bounds, n ≤ M := by
  rw [deepest, foldr_max_le_iff, bounds, List.forall_mem_append, Settings.bounds_le_iff]
  tauto

theorem deepest_withMaxDepth (h : o.deepest ≤ M) {n : Int} (hn : n ≤ M) :
    Options.deepest { o with maxDepth := n } ≤ M := by
  obtain ⟨-, hhandlers, hnodes⟩ := deepest_le_iff.mp h
  exact deepest_le_iff.mpr ⟨hn, hhandlers, hnodes⟩

theorem deepest_withHandlers (h : o.deepest ≤ M) {hs : Handlers}
    (hhs : hs.all (Hook.within M) = true) : (o.withHandlers hs).deepest ≤ M := by
  obtain ⟨hmax, hhandlers, hnodes⟩ := deepest_le_iff.mp h
  exact deepest_le_iff.mpr ⟨hmax, Handlers.all_merge hhandlers hhs, hnodes⟩

theorem deepest_ofSettings (h : o.deepest ≤ M) {c : Settings} (hc : o.nodes = some (.generate c)) :
    (ofSettings c).deepest ≤ M := by
  obtain ⟨-, -, hnodes⟩ := deepest_le_iff.mp h
  rw [hc] at hnodes
  obtain ⟨hmax, hhandlers⟩ := Settings.bounds_le_iff.mp hnodes
  exact deepest_le_iff.mpr ⟨hmax, hhandlers, hnodes⟩

end Options

/-! ## Agreement at a depth -/

theorem Gen.ext {α : Type} {x y : Gen α}
    (h : ∀ machine run, x.perform machine run = y.perform machine run) : x = y := by
  funext machine run
  exact h machine run

/-- Steps that are the same where so many calls are open, and leave that many open. -/
def agreeing (d : Nat) : StepRelation where
  Step x y := ∀ machine run, run.depth = d →
    y.perform machine run = x.perform machine run ∧ (x.perform machine run).2.depth = d
  quiet := by
    intro α x hx machine run hrun
    obtain ⟨answer, -, hanswer⟩ := hx.leaves machine
    rw [hanswer run]
    exact ⟨rfl, hrun⟩
  record _ _ _ hrun := ⟨rfl, hrun⟩
  bind := by
    intro α β x y k l hx hk machine run hrun
    obtain ⟨hsame, hdepth⟩ := hx machine run hrun
    rw [Gen.perform_bind, Gen.perform_bind, hsame]
    rcases hanswer : x.perform machine run with ⟨f | a, after⟩
    · rw [hanswer] at hdepth
      exact ⟨rfl, hdepth⟩
    · rw [hanswer] at hdepth
      exact hk a machine after hdepth

theorem nested_agreeing {d : Nat} {m : Int} {x y : Gen Text}
    (h : d + 1 ≤ m → (agreeing (d + 1)).Step x y) :
    (agreeing d).Step (Gen.nested m x) (Gen.nested m y) := by
  intro machine run hrun
  refine ⟨?_, (Gen.depth_nested m x).trans hrun⟩
  rw [Gen.perform_nested, Gen.perform_nested]
  split
  · rfl
  · next hm =>
    have hsame := (h (by omega) machine { run with depth := run.depth + 1 } (by simp [hrun])).1
    rw [hsame]

theorem slot_agreeing {M : Int} {d : Nat} {g g' : Emitter} {o : Options} (v : Value) (scope : Scope)
    (hg : ∀ v scope o, o.deepest ≤ M → (agreeing d).Step (g v scope o) (g' v scope o))
    (ho : o.deepest ≤ M) :
    (agreeing d).Step (Slot.emit g v scope o) (Slot.emit g' v scope o) := by
  cases hnodes : o.nodes with
  | none =>
    intro machine run hrun
    rw [perform_slot g v scope hnodes, perform_slot g' v scope hnodes]
    refine ⟨rfl, ?_⟩
    split <;> exact hrun
  | some nodes =>
    simp only [Slot.emit, hnodes]
    refine (agreeing d).emitWith o.slots (fun node => ?_) v
    refine (agreeing d).render nodes fun c hc => ?_
    exact hg node scope _ (Options.deepest_ofSettings ho (hc ▸ hnodes))

/-- Two generators that agree where so many calls are open, under options that have no bound larger
than `M` in them. -/
def agreement (M : Int) (d : Nat) : Congruence where
  toStepRelation := agreeing d
  Context s o s' o' := s' = s ∧ o' = o ∧ o.deepest ≤ M
  Hooks := Hook.Passing (Hook.within M)
  rescue := by
    rintro x y - h machine run hrun
    obtain ⟨hsame, hdepth⟩ := h machine run hrun
    rw [Gen.perform_rescued, Gen.perform_rescued, hsame]
    exact ⟨rfl, hdepth⟩
  trace := by
    rintro label s s' o o' - ⟨rfl, -⟩
    exact (agreeing d).quiet (.display s')
  expression := by
    rintro s s' o o' v ⟨rfl, rfl, -⟩
    exact (agreeing d).quiet (Expression.emit_quiet _ v s')
  function := by
    rintro s s' o o' v ⟨-, rfl, -⟩
    exact (agreeing d).quiet (Function.emit_quiet o' v)
  slot := by
    rintro s s' o o' g g' v hg ⟨rfl, rfl, ho⟩
    exact slot_agreeing v s' (fun v scope o ho => hg v scope o scope o ⟨rfl, rfl, ho⟩) ho
  hooks := by
    rintro s s' o o' name ⟨-, rfl, ho⟩
    obtain ⟨-, hhandlers, -⟩ := Options.deepest_le_iff.mp ho
    exact .of_all hhandlers name
  scope := by
    rintro s s' o o' w - ⟨-, hoptions, ho⟩
    exact ⟨rfl, hoptions, ho⟩
  maxDepth := by
    rintro s s' o o' n ⟨-, hn⟩ ⟨rfl, rfl, ho⟩
    have hn : n ≤ M := by simpa [Hook.all, Hook.within, Hook.bound?] using hn
    exact ⟨rfl, rfl, Options.deepest_withMaxDepth ho hn⟩
  hook_eq h _ := h.eq
  handlers := by
    intro hs h' h
    obtain ⟨rfl, hall⟩ := h.of_handlers
    refine ⟨hs, rfl, ?_⟩
    rintro s s' o o' ⟨rfl, rfl, ho⟩
    exact ⟨rfl, rfl, Options.deepest_withHandlers ho hall⟩

/-! ## Generation without a limit -/

/-- The text of a value, where a call of the generator is routed as usual as long as no more than
`n` of them are open, itself included, and by `beyond` inside that many. -/
def generateUpTo (beyond : Emitter) : (n : Nat) → Emitter
  | 0, v, scope, o => Gen.nested o.maxDepth (beyond v scope o)
  | n + 1, v, scope, o => Gen.nested o.maxDepth (route (generateUpTo beyond n) v scope o)

theorem generateWithin_succ (n : Nat) :
    generateWithin (n + 1) = generateUpTo (route (generateWithin 0)) n := by
  induction n with
  | zero => rfl
  | succ n ih =>
    funext v scope o
    rw [generateWithin, ih]
    rfl

theorem generateUpTo_agreement {M : Int} {n n' d : Nat} (beyond beyond' : Emitter)
    (hn : M ≤ n + d) (hn' : M ≤ n' + d) :
    (agreement M d).Related (generateUpTo beyond n) (generateUpTo beyond' n') := by
  -- A call inside another has one less to go and one more open around it, so both sums stay. Once
  -- either generator has none to go, the bound is met and `beyond` is not asked.
  induction n generalizing n' d with
  | zero =>
    rintro v s o s' o' ⟨rfl, rfl, ho⟩
    obtain ⟨hmax, -⟩ := Options.deepest_le_iff.mp ho
    cases n' <;> exact nested_agreeing fun hd => by omega
  | succ n ih =>
    rintro v s o s' o' ⟨rfl, rfl, ho⟩
    obtain ⟨hmax, -⟩ := Options.deepest_le_iff.mp ho
    cases n' with
    | zero => exact nested_agreeing fun hd => by omega
    | succ n' =>
      have hgenerate :
          (agreement M (d + 1)).Related (generateUpTo beyond n) (generateUpTo beyond' n') :=
        ih (by omega) (by omega)
      refine nested_agreeing fun _ => ?_
      exact (agreement M (d + 1)).route hgenerate v s' o' s' o' ⟨rfl, rfl, ho⟩

/-- The text of a value, however many calls of the generator are open in each other: one more than
the largest bound allows can be counted on to fail. -/
def unlimited : Emitter := fun v scope o => generateWithin (o.deepest.toNat + 1) v scope o

theorem generateUpTo_eq_unlimited {n : Nat} {o : Options} {run : Run} (beyond : Emitter)
    (hn : o.deepest ≤ n + run.depth) (v : Value) (scope : Scope) (machine : Machine) :
    (generateUpTo beyond n v scope o).perform machine run =
      (unlimited v scope o).perform machine run := by
  have hbound : o.deepest ≤ (o.deepest.toNat : Nat) + (run.depth : Nat) := by omega
  have hsame := generateUpTo_agreement (route (generateWithin 0)) beyond hbound hn v scope o
    scope o ⟨rfl, rfl, le_refl _⟩ machine run rfl
  rw [unlimited, generateWithin_succ]
  exact hsame.1

theorem unlimited_eq (v : Value) (scope : Scope) (o : Options) :
    unlimited v scope o = Gen.nested o.maxDepth (route unlimited v scope o) := by
  refine Gen.ext fun machine run => ?_
  obtain ⟨hmax, -⟩ := Options.deepest_le_iff.mp (le_refl o.deepest)
  have hsame : (agreeing run.depth).Step
      (Gen.nested o.maxDepth (route (generateWithin o.deepest.toNat) v scope o))
      (Gen.nested o.maxDepth (route unlimited v scope o)) := by
    refine nested_agreeing fun hd => ?_
    -- A call is routed, so the largest bound allows one.
    obtain ⟨k, hk⟩ : ∃ k, o.deepest.toNat = k + 1 := Nat.exists_eq_succ_of_ne_zero (by omega)
    have hrelated : (agreement o.deepest (run.depth + 1)).Related
        (generateWithin o.deepest.toNat) unlimited := by
      rintro w s o' s' o'' ⟨rfl, rfl, ho⟩
      rw [hk, unlimited, generateWithin_succ, generateWithin_succ]
      exact generateUpTo_agreement (M := o''.deepest) _ _ (by omega) (by omega) w s' o'' s' o''
        ⟨rfl, rfl, le_refl _⟩
    exact (agreement o.deepest (run.depth + 1)).route hrelated v scope o scope o
      ⟨rfl, rfl, le_refl _⟩
  exact (hsame machine run rfl).1.symm

theorem eq_unlimited {g : Emitter}
    (hg : ∀ v scope o, g v scope o = Gen.nested o.maxDepth (route g v scope o)) :
    g = unlimited := by
  have hup (n : Nat) : g = generateUpTo (route g) n := by
    induction n with
    | zero =>
      funext v scope o
      exact hg v scope o
    | succ n ih =>
      funext v scope o
      rw [generateUpTo, ← ih]
      exact hg v scope o
  funext v scope o
  refine Gen.ext fun machine run => ?_
  rw [hup o.deepest.toNat]
  exact generateUpTo_eq_unlimited (route g) (by omega) v scope machine

/-- **The bound on nesting makes generation terminate.** No call of the generator is routed with
more calls open than the largest bound in the options says, itself included: routing it could do
anything. A machine that can follow one call more answers what one without a limit answers, and
that is the only function that calls itself as the generator does. -/
theorem maxDepth_bounds_generation (v : Value) (scope : Scope) (o : Options) (machine : Machine)
    (run : Run) :
    (∀ (n : Nat) (beyond : Emitter), o.deepest ≤ n + run.depth →
      (generateUpTo beyond n v scope o).perform machine run =
        (unlimited v scope o).perform machine run) ∧
    (o.deepest.toNat < machine.calls →
      (generate v scope o).perform machine run = (unlimited v scope o).perform machine run) ∧
    (∀ g : Emitter, (∀ v scope o, g v scope o = Gen.nested o.maxDepth (route g v scope o)) ↔
      g = unlimited) := by
  refine ⟨fun n beyond hn => generateUpTo_eq_unlimited beyond hn v scope machine, fun hcalls => ?_,
    fun g => ⟨eq_unlimited, fun hg => hg ▸ unlimited_eq⟩⟩
  obtain ⟨n, hn⟩ : ∃ n, machine.calls = n + 1 := Nat.exists_eq_succ_of_ne_zero (by omega)
  rw [generate, Gen.perform_bind_ok Gen.perform_read, hn, generateWithin_succ]
  exact generateUpTo_eq_unlimited _ (by omega) v scope machine

/-- A hook calls the generator on the value it was given, under a bound that another hook has
raised. -/
theorem maxDepth_bounds_generation_again :
    let again := HookStack.list [.maxDepth 4, .again]
    let o : Options :=
      { maxDepth := 2, handlers := [("array", .single (.handlers [("string", again)]))] }
    let v := Value.list [.str "a"]
    o.deepest = 4 ∧
      (∀ beyond, (generateUpTo beyond 4 v .null o).perform .standard {} =
        (.error (.depthExceeded 4), {})) ∧
      (generate v .null o).perform .standard {} = (.error (.depthExceeded 4), {}) := by
  intro again o v
  have hdeepest : o.deepest = 4 := rfl
  have houtcome :
      (unlimited v .null o).perform .standard {} = (.error (.depthExceeded 4), {}) := rfl
  obtain ⟨hbeyond, hcalls, -⟩ := maxDepth_bounds_generation v .null o .standard {}
  refine ⟨hdeepest, fun beyond => ?_, ?_⟩
  · rw [hbeyond 4 beyond (by rw [hdeepest]; decide), houtcome]
  · rw [hcalls (by rw [hdeepest]; decide), houtcome]

end CompositeScript
