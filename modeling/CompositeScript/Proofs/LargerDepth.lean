import CompositeScript.Proofs.Simulation

/-! What becomes of a successful run under larger bounds.

A run that succeeds has met no bound. So it goes the same way on a machine with greater limits, and
under options with a larger bound on nesting, in their own settings or in those of their node
generator, as long as no hook rescues: a rescue could have made a text of a bound that was met. The
bounds that hooks set are the same in both runs, so the two bounds in force differ up to the first
such hook only. -/

namespace CompositeScript

/-! ## Larger bounds -/

/-- No hook of the settings is a rescue, at any depth. -/
def Settings.RescueFree (c : Settings) : Prop := c.handlers.all (fun h => !h.isRescue) = true

/-- No hook of the options is a rescue, nor is any in the settings of their node generator. -/
structure Options.RescueFree (o : Options) : Prop where
  settings : o.toSettings.RescueFree
  nodes : ∀ c, o.nodes = some (.generate c) → c.RescueFree

/-- Of two settings without a rescue, the second have a bound that is not smaller, and are otherwise
the same. -/
structure Settings.Raised (c c' : Settings) : Prop where
  maxDepth : c.maxDepth ≤ c'.maxDepth
  rest : c' = { c with maxDepth := c'.maxDepth }
  rescueFree : c.RescueFree

/-- The two node generators are the same, up to a larger bound in their settings. -/
inductive NodeGenerator.Raised : NodeGenerator → NodeGenerator → Prop
  | component : Raised .component .component
  | telling : Raised .telling .telling
  | generate {c c' : Settings} : c.Raised c' → Raised (.generate c) (.generate c')

/-- The two options are the same, up to larger bounds. -/
structure Options.Raised (o o' : Options) : Prop where
  settings : o.toSettings.Raised o'.toSettings
  nodes : Option.Rel NodeGenerator.Raised o.nodes o'.nodes

namespace Options

variable {o o' : Options}

theorem Raised.withMaxDepth (h : o.Raised o') (n : Int) :
    Options.Raised { o with maxDepth := n } { o' with maxDepth := n } := by
  obtain ⟨⟨-, hrest, hrescue⟩, hnodes⟩ := h
  refine ⟨⟨le_refl n, ?_, hrescue⟩, hnodes⟩
  rw [hrest]

theorem Raised.withHandlers (h : o.Raised o') {hs : Handlers}
    (hhs : hs.all (fun h => !h.isRescue) = true) :
    (o.withHandlers hs).Raised (o'.withHandlers hs) := by
  obtain ⟨⟨hmax, hrest, hrescue⟩, hnodes⟩ := h
  refine ⟨⟨hmax, ?_, Handlers.all_merge hrescue hhs⟩, hnodes⟩
  simp only [Options.withHandlers]
  rw [hrest]

theorem Raised.ofSettings {c c' : Settings} (h : c.Raised c') :
    (Options.ofSettings c).Raised (Options.ofSettings c') :=
  ⟨h, .some (.generate h)⟩

/-- The bound of the options is raised, and their node generator stays as it is. -/
theorem RescueFree.raised (h : o.RescueFree) {m m' : Int} (hm : m ≤ m') :
    Options.Raised { o with maxDepth := m } { o with maxDepth := m' } := by
  refine ⟨⟨hm, rfl, h.settings⟩, ?_⟩
  cases hnodes : o.nodes with
  | none => exact .none
  | some nodes =>
    refine .some ?_
    cases nodes with
    | component => exact .component
    | telling => exact .telling
    | generate c => exact .generate ⟨le_refl _, rfl, h.nodes c hnodes⟩

end Options

/-! ## The two runs -/

/-- Where the first step succeeds on a machine, the second one does so on a larger machine, with the
same answer, and leaves the same behind. -/
def successes : StepRelation where
  Step x y := ∀ machine larger, machine.Within larger → ∀ run a after,
    x.perform machine run = (.ok a, after) → y.perform larger run = (.ok a, after)
  quiet hx _ _ hlarger _ _ _ h := hx.steady hlarger h
  record _ _ _ _ _ _ _ h := h
  bind := by
    intro α β x y k l hx hk machine larger hlarger run b after h
    obtain ⟨a, between, hanswer, hb⟩ := Gen.exists_of_perform_bind h
    rw [Gen.perform_bind_ok (hx machine larger hlarger run a between hanswer)]
    exact hk a machine larger hlarger between b after hb

theorem nested_successes {m m' : Int} {x y : Gen Text} (hm : m ≤ m') (h : successes.Step x y) :
    successes.Step (Gen.nested m x) (Gen.nested m' y) := by
  intro machine larger hlarger run text after hanswer
  rw [Gen.perform_nested] at hanswer ⊢
  split at hanswer
  · cases hanswer
  · rw [if_neg (by omega)]
    obtain ⟨hsurfaced, hafter⟩ := Prod.ext_iff.mp hanswer
    have hok := Gen.eq_ok_of_surfaced hsurfaced
    rw [h machine larger hlarger _ text _ (Prod.ext hok rfl)]
    exact Prod.ext rfl hafter

/-- A run, and one under larger bounds, side by side. -/
def raising : Congruence where
  toStepRelation := successes
  Context s o s' o' := s' = s ∧ o.Raised o'
  Hooks := Hook.Passing fun h => !h.isRescue
  rescue := by
    rintro x y ⟨-, hrescue⟩
    cases hrescue
  trace := by
    rintro label s s' o o' - ⟨rfl, -⟩
    exact successes.quiet (.display s')
  expression := by
    rintro s s' o o' v ⟨rfl, ⟨-, hrest, -⟩, -⟩
    have hexpressions : o'.expressions = o.expressions := by rw [hrest]
    rw [hexpressions]
    exact successes.quiet (Expression.emit_quiet o.expressions v s')
  function := by
    rintro s s' o o' v ⟨-, ⟨-, hrest, -⟩, -⟩
    have hfinder : o'.nameFinder = o.nameFinder := by rw [hrest]
    have hfunctions : o'.functions = o.functions := by rw [hrest]
    have hsame : Function.emit o' v = Function.emit o v := by
      simp only [Function.emit, hfinder, hfunctions]
    rw [hsame]
    exact successes.quiet (Function.emit_quiet o v)
  slot := by
    rintro s s' o o' g g' v hg ⟨rfl, ⟨-, hrest, -⟩, hnodes⟩
    refine successes.slot v (by rw [hrest]) (by rw [hrest]) ?_ hnodes ?_
    · intro hnone machine larger hlarger run text after h
      rwa [perform_slot g v s' hnone] at h ⊢
    · intro nodes nodes' hraised node
      cases hraised with
      | component => exact successes.render .component nofun
      | telling => exact successes.render .telling nofun
      | generate hc => exact hg node s' _ s' _ ⟨rfl, .ofSettings hc⟩
  hooks := by
    rintro s s' o o' name ⟨-, ⟨-, hrest, hrescue⟩, -⟩
    have hhandlers : o'.handlers = o.handlers := by rw [hrest]
    rw [hhandlers]
    exact .of_all hrescue name
  scope _ _ h := ⟨rfl, h.2⟩
  maxDepth n _ h := ⟨h.1, h.2.withMaxDepth n⟩
  hook_eq h _ := h.eq
  handlers := by
    intro hs h' h
    obtain ⟨rfl, hall⟩ := h.of_handlers
    exact ⟨hs, rfl, fun ho => ⟨ho.1, ho.2.withHandlers hall⟩⟩

theorem generateWithin_raised {n n' : Nat} (hn : n ≤ n') :
    raising.Related (generateWithin n) (generateWithin n') := by
  induction n generalizing n' with
  | zero =>
    rintro v s o s' o' - machine larger - run text after h
    cases h
  | succ n ih =>
    obtain ⟨m, rfl⟩ := Nat.exists_eq_add_of_le' (show 1 ≤ n' by omega)
    intro v s o s' o' ho
    have hroute := raising.route (ih (show n ≤ m by omega)) v s o s' o' ho
    exact nested_successes ho.2.settings.maxDepth hroute

/-- What succeeds goes the same way under larger bounds, of the options and of the machine. -/
theorem generate_raised {v : Value} {scope : Scope} {o o' : Options} {machine larger : Machine}
    {run after : Run} {text : Text} (ho : o.Raised o') (hlarger : machine.Within larger)
    (h : (generate v scope o).perform machine run = (.ok text, after)) :
    (generate v scope o').perform larger run = (.ok text, after) := by
  rw [generate, Gen.perform_bind_ok Gen.perform_read] at h ⊢
  exact generateWithin_raised hlarger.calls v scope o scope o' ⟨rfl, ho⟩ machine larger hlarger run
    text after h

/-- Without a rescue, a run that succeeds has met no limit of the machine. -/
theorem generate_unhindered_of_ok {v : Value} {scope : Scope} {o : Options} {machine : Machine}
    {run : Run} {text : Text} (ho : o.RescueFree)
    (h : ((generate v scope o).perform machine run).1 = .ok text) :
    (generate v scope o).Unhindered machine run := by
  intro larger hlarger
  rw [generate_raised (ho.raised (le_refl o.maxDepth)) hlarger (Prod.ext h rfl), h]
  exact ⟨rfl, rfl⟩

/-- **A larger bound on nesting keeps what succeeds.** Without a rescue among the hooks, a run that
answers a text under one bound answers the same text under any larger one and leaves the same
behind, warnings and trace included. The bound may be raised in the options alone, or with it the
one of a node generator that calls the generator with the same settings. -/
theorem larger_maxDepth_keeps_success {m m' : Int} (hm : m ≤ m') (v : Value) (scope : Scope)
    (machine : Machine) (run after : Run) (text : Text) :
    (∀ o : Options, o.RescueFree →
      (generate v scope { o with maxDepth := m }).perform machine run = (.ok text, after) →
      (generate v scope { o with maxDepth := m' }).perform machine run = (.ok text, after)) ∧
    (∀ c : Settings, c.RescueFree →
      (generate v scope (.ofSettings { c with maxDepth := m })).perform machine run =
        (.ok text, after) →
      (generate v scope (.ofSettings { c with maxDepth := m' })).perform machine run =
        (.ok text, after)) := by
  constructor
  · intro o hrescue
    exact generate_raised (hrescue.raised hm) (.refl machine)
  · intro c hrescue
    have hraised : Options.Raised (.ofSettings { c with maxDepth := m })
        (.ofSettings { c with maxDepth := m' }) := .ofSettings ⟨hm, rfl, hrescue⟩
    exact generate_raised hraised (.refl machine)

/-- The smaller bound is just enough, for the node of a slot as well as below the object, where a
hook sets a bound of its own. -/
theorem larger_maxDepth_keeps_success_traced :
    let c : Settings := { handlers :=
      [("string", .list [.trace "s", .twice]), ("object", .single (.maxDepth 3))] }
    let o := Options.ofSettings c
    let v := Value.list [.map false [(.str "a", .str "b")], .tagged .slot "value" (.str "c")]
    let text : Text := "[\x7b\"a\": \"b\"|\"b\"\x7d,\"c\"|\"c\"]"
    let after : Run := { trace := [⟨"s", "'b'", "None"⟩, ⟨"s", "'c'", "None"⟩] }
    (o.RescueFree ∧
      (generate v .null { o with maxDepth := 2 }).perform .standard {} = (.ok text, after) ∧
      (generate v .null { o with maxDepth := 9 }).perform .standard {} = (.ok text, after)) ∧
    (c.RescueFree ∧
      (generate v .null (.ofSettings { c with maxDepth := 3 })).perform .standard {} =
        (.ok text, after) ∧
      (generate v .null (.ofSettings { c with maxDepth := 9 })).perform .standard {} =
        (.ok text, after)) := by
  intro c o v text after
  have hsettings : c.RescueFree := rfl
  have hoptions : o.RescueFree := by
    refine ⟨hsettings, ?_⟩
    rintro c' ⟨⟩
    exact hsettings
  have htwo : (generate v .null { o with maxDepth := 2 }).perform .standard {} =
      (.ok text, after) := rfl
  have hthree : (generate v .null (.ofSettings { c with maxDepth := 3 })).perform .standard {} =
      (.ok text, after) := rfl
  have hraised := larger_maxDepth_keeps_success (show (2 : Int) ≤ 9 by decide) v .null .standard {}
    after text
  have hraised' := larger_maxDepth_keeps_success (show (3 : Int) ≤ 9 by decide) v .null .standard
    {} after text
  exact ⟨⟨hoptions, htwo, hraised.1 o hoptions htwo⟩,
    ⟨hsettings, hthree, hraised'.2 c hsettings hthree⟩⟩

end CompositeScript
