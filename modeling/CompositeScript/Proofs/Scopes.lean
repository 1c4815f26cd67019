import CompositeScript.Proofs.PassThrough

/-! The way of the scope through a run.

The generator hands the scope on and does not look at it. If nothing shows the scope, runs in two
scopes are the same. To say that the scope reaches hooks, expressions and nodes unchanged, the
generator is taken with other collaborators in their places (`Collaborators.generate`): unless a
hook sets another scope, a run in a scope hangs on what the collaborators do in that scope alone. -/

namespace CompositeScript

/-! ## Hooks of options -/

/-- The hook shows the scope. -/
def Hook.isTrace : Hook → Bool
  | .trace _ => true
  | _ => false

/-- The hook sets another scope. -/
def Hook.isScope : Hook → Bool
  | .scope _ => true
  | _ => false

namespace Options

/-- The hooks of the options pass the test at any depth, and so do those of their node generator. -/
structure AllHooks (p : Hook → Bool) (o : Options) : Prop where
  settings : o.handlers.all p = true
  nodes : ∀ c, o.nodes = some (.generate c) → c.handlers.all p = true

/-- Nothing shows the scope: no tracing hook, no telling rendering of expressions, and no telling
node generator. -/
structure ScopeBlind (o : Options) : Prop where
  hooks : o.AllHooks fun h => !h.isTrace
  expressions : o.expressions = .standard
  nodes : o.nodes ≠ some .telling
  nodeExpressions : ∀ c, o.nodes = some (.generate c) → c.expressions = .standard

variable {p : Hook → Bool} {o : Options}

theorem AllHooks.withHandlers (h : o.AllHooks p) {hs : Handlers} (hhs : hs.all p = true) :
    (o.withHandlers hs).AllHooks p :=
  ⟨Handlers.all_merge h.settings hhs, h.nodes⟩

theorem AllHooks.ofSettings (h : o.AllHooks p) {c : Settings} (hc : o.nodes = some (.generate c)) :
    (Options.ofSettings c).AllHooks p := by
  refine ⟨h.nodes c hc, ?_⟩
  rintro c' ⟨⟩
  exact h.nodes c hc

theorem ScopeBlind.ofSettings (h : o.ScopeBlind) {c : Settings}
    (hc : o.nodes = some (.generate c)) : (Options.ofSettings c).ScopeBlind := by
  refine ⟨h.hooks.ofSettings hc, h.nodeExpressions c hc, by simp [Options.ofSettings], ?_⟩
  rintro c' ⟨⟩
  exact h.nodeExpressions c hc

end Options

/-! ## Two scopes -/

theorem slot_of_render {s s' : Scope} {o : Options} {g g' : Emitter} (v : Value)
    (h : ∀ nodes, o.nodes = some nodes → ∀ node,
      nodes.render g' node s' = nodes.render g node s) :
    Slot.emit g' v s' o = Slot.emit g v s o := by
  cases hnodes : o.nodes with
  | none => simp only [Slot.emit, hnodes]
  | some nodes =>
    simp only [Slot.emit, hnodes]
    exact sameSteps.emitWith o.slots (h nodes hnodes) v

/-- Two runs that differ in nothing but the scope, which nothing shows. -/
def rescoping : Simulation where
  toStepRelation := sameSteps
  calls := sameSteps_calls
  Context _ o _ o' := o' = o ∧ o.ScopeBlind
  Hooks := Hook.Passing fun h => !h.isTrace
  nested := by
    rintro s s' o o' x y ⟨rfl, -⟩ rfl
    rfl
  rescue _ h := congrArg Gen.rescued h
  trace := by
    rintro label s s' o o' ⟨-, htrace⟩
    cases htrace
  expression := by
    rintro s s' o o' v ⟨rfl, ho⟩
    rw [ho.expressions]
    rfl
  function := by
    rintro s s' o o' v ⟨rfl, -⟩
    rfl
  slot := by
    rintro s s' o o' g g' v hg ⟨rfl, ho⟩
    apply slot_of_render
    intro nodes hnodes node
    cases nodes with
    | component => rfl
    | telling => exact (ho.nodes hnodes).elim
    | generate c => exact hg node _ _ _ _ ⟨rfl, ho.ofSettings hnodes⟩
  hooks := by
    rintro s s' o o' name ⟨rfl, ho⟩
    exact .of_all ho.hooks.settings name
  scope _ _ h := h
  maxDepth := by
    rintro s s' o o' n - ⟨rfl, ho⟩
    exact ⟨rfl, ⟨ho.hooks.settings, ho.hooks.nodes⟩, ho.expressions, ho.nodes, ho.nodeExpressions⟩
  hook_eq h _ := h.eq
  handlers := by
    intro hs h' h
    obtain ⟨rfl, hall⟩ := h.of_handlers
    refine ⟨hs, rfl, ?_⟩
    rintro s s' o o' ⟨rfl, ho⟩
    exact ⟨rfl, ho.hooks.withHandlers hall, ho.expressions, ho.nodes, ho.nodeExpressions⟩

/-! ## Other collaborators -/

/-- What is called with a scope: hooks, the rendering of expressions, and node generators. Hooks and
node generators are given the generator. -/
structure Collaborators where
  hook : Emitter → Hook → HookAction
  expression : Rendering → Value → Scope → Gen Text
  node : Emitter → NodeGenerator → Slot.NodeRenderer

namespace Collaborators

/-- The collaborators that the generator has. -/
def standard : Collaborators where
  hook := Hook.act
  expression := Expression.emit
  node g nodes := nodes.render g

/-- The collaborators do in the scope what those of the generator do. -/
structure AgreesIn (s : Scope) (c : Collaborators) : Prop where
  hook : ∀ g h v o next, c.hook g h v s o next = h.act g v s o next
  expression : ∀ rendering v, c.expression rendering v s = Expression.emit rendering v s
  node : ∀ g nodes v, c.node g nodes v s = nodes.render g v s

variable (c : Collaborators)

/-- The emitter of a kind, with these collaborators. -/
def emit (g : Emitter) (kind : Kind) : Emitter := fun v scope o =>
  match kind with
  -- Variables and data sources have become expressions before they are emitted.
  | .expression | .variableRef | .dataSource => c.expression o.expressions v scope
  | .slot =>
    o.nodes.elim (Slot.emit g v scope o) fun nodes =>
      Slot.emitWith o.slots (c.node g nodes) v scope
  | kind => kind.emit g v scope o

/-- The text of a value, given the generator for what it holds, with these collaborators. -/
def route (g : Emitter) : Emitter := fun v scope o => do
  let (kind, v) := desugar (← Gen.ofExcept v.classify) v
  runHooks ((o.handlers.hooks kind.name).map (c.hook g)) (c.emit g kind) v scope o

def generateWithin : (calls : Nat) → Emitter
  | 0, _, _, _ => throw .tooDeep
  | n + 1, v, scope, o => Gen.nested o.maxDepth (c.route (generateWithin n) v scope o)

/-- The generator with these collaborators. -/
def generate : Emitter := fun v scope o => do c.generateWithin (← read).calls v scope o

theorem standard_emit (g : Emitter) (kind : Kind) : standard.emit g kind = kind.emit g := by
  funext v scope o
  cases kind with
  | slot =>
    simp only [emit, standard, Kind.emit, Slot.emit]
    cases o.nodes <;> rfl
  | _ => rfl

theorem standard_generateWithin (n : Nat) :
    standard.generateWithin n = CompositeScript.generateWithin n := by
  induction n with
  | zero => rfl
  | succ n ih =>
    funext v scope o
    simp only [generateWithin, CompositeScript.generateWithin, route, CompositeScript.route,
      dispatch_eq_runHooks, standard_emit, ih]
    rfl

theorem standard_generate (v : Value) (scope : Scope) (o : Options) :
    standard.generate v scope o = CompositeScript.generate v scope o := by
  simp only [generate, CompositeScript.generate, standard_generateWithin]

end Collaborators

/-! ## One scope -/

/-- Two runs in one scope, which no hook replaces. -/
def inScope (s : Scope) : Congruence where
  toStepRelation := sameSteps
  Context x o x' o' := x = s ∧ x' = s ∧ o' = o ∧ o.AllHooks fun h => !h.isScope
  Hooks := Hook.Passing fun h => !h.isScope
  rescue _ h := congrArg Gen.rescued h
  trace := by
    rintro label x x' o o' - ⟨rfl, rfl, -⟩
    rfl
  expression := by
    rintro x x' o o' v ⟨rfl, rfl, rfl, -⟩
    rfl
  function := by
    rintro x x' o o' v ⟨-, -, rfl, -⟩
    rfl
  slot := by
    rintro x x' o o' g g' v hg ⟨rfl, rfl, rfl, ho⟩
    apply slot_of_render
    intro nodes hnodes node
    cases nodes with
    | component | telling => rfl
    | generate c => exact hg node _ _ _ _ ⟨rfl, rfl, rfl, ho.ofSettings hnodes⟩
  hooks := by
    rintro x x' o o' name ⟨-, -, rfl, ho⟩
    exact .of_all ho.settings name
  scope := by
    rintro x x' o o' w ⟨-, hscope⟩
    cases hscope
  maxDepth := by
    rintro x x' o o' n - ⟨rfl, rfl, rfl, ho⟩
    exact ⟨rfl, rfl, rfl, ho.settings, ho.nodes⟩
  hook_eq h _ := h.eq
  handlers := by
    intro hs h' h
    obtain ⟨rfl, hall⟩ := h.of_handlers
    refine ⟨hs, rfl, ?_⟩
    rintro x x' o o' ⟨rfl, rfl, rfl, ho⟩
    exact ⟨rfl, rfl, rfl, ho.withHandlers hall⟩

namespace Collaborators.AgreesIn

variable {c : Collaborators} {s : Scope} {g g' : Emitter}

theorem emit (h : c.AgreesIn s) (kind : Kind) (v : Value) (o : Options) :
    c.emit g kind v s o = kind.emit g v s o := by
  cases kind with
  | expression | variableRef | dataSource => exact h.expression o.expressions v
  | slot =>
    simp only [Collaborators.emit, Kind.emit, Slot.emit]
    cases o.nodes with
    | none => rfl
    | some nodes => exact sameSteps.emitWith o.slots (fun node => (h.node g nodes node)) v
  | _ => rfl

theorem runHooks (h : c.AgreesIn s) {hooks : List Hook} {e e' : Emitter}
    (hhooks : ∀ hook ∈ hooks, hook.all (fun h => !h.isScope) = true)
    (hg : (inScope s).Related g g') (he : (inScope s).Related e e') :
    (inScope s).Related (CompositeScript.runHooks (hooks.map (Hook.act g)) e)
      (CompositeScript.runHooks (hooks.map (c.hook g')) e') := by
  induction hooks with
  | nil => exact he
  | cons hook hooks ih =>
    obtain ⟨hhook, hhooks⟩ := List.forall_mem_cons.mp hhooks
    intro v x o x' o' ho
    obtain ⟨rfl, rfl, rfl, -⟩ := id ho
    -- The other hook does here as the hook itself, with the other generator and the other rest.
    have hact := (inScope x').act ⟨rfl, hhook⟩ hg (ih hhooks) v ho
    exact (h.hook ..).trans hact

theorem route (h : c.AgreesIn s) (hg : (inScope s).Related g g') :
    (inScope s).Related (CompositeScript.route g) (c.route g') := by
  intro v x o x' o' ho
  apply (inScope s).bind rfl
  intro kind
  have hemit : (inScope s).Related ((desugar kind v).1.emit g) (c.emit g' (desugar kind v).1) := by
    intro w x o x' o' ho
    obtain ⟨-, rfl, -⟩ := id ho
    rw [h.emit]
    exact (inScope x').emit hg _ w x o x' o' ho
  obtain ⟨rfl, rfl, rfl, hscope⟩ := id ho
  simp only [dispatch_eq_runHooks]
  exact h.runHooks (Handlers.all_hooks hscope.settings _) hg hemit _ _ _ _ _ ho

theorem generateWithin (h : c.AgreesIn s) (n : Nat) :
    (inScope s).Related (CompositeScript.generateWithin n) (c.generateWithin n) := by
  induction n with
  | zero => exact fun v x o x' o' _ => rfl
  | succ n ih =>
    intro v x o x' o' ho
    obtain ⟨-, -, rfl, -⟩ := id ho
    exact congrArg (Gen.nested o'.maxDepth) (h.route ih v x o' x' o' ho)

end Collaborators.AgreesIn

/-- **The scope is only forwarded.** If nothing shows the scope, runs in any two scopes answer the
same and leave the same behind, whatever the other hooks do. And if no hook sets another scope, all
that is called with a scope is called with the one given: with collaborators in the places of the
hooks, of the rendering of expressions and of the node generators, which do as those in that scope
and anything at all in every other, the run is the same. -/
theorem scope_only_forwarded :
    (∀ (v : Value) (s₁ s₂ : Scope) (o : Options) (machine : Machine) (run : Run), o.ScopeBlind →
      (generate v s₁ o).perform machine run = (generate v s₂ o).perform machine run) ∧
    (∀ (v : Value) (s : Scope) (o : Options),
      Collaborators.standard.generate v s o = generate v s o) ∧
    (∀ (v : Value) (s : Scope) (o : Options) (c : Collaborators) (machine : Machine) (run : Run),
      o.AllHooks (fun h => !h.isScope) → c.AgreesIn s →
      (c.generate v s o).perform machine run = (generate v s o).perform machine run) := by
  refine ⟨?_, ?_, ?_⟩
  · intro v s₁ s₂ o machine run ho
    rw [show generate v s₁ o = generate v s₂ o from rescoping.generate v s₂ o s₁ o ⟨rfl, ho⟩]
  · intro v s o
    rw [Collaborators.generate, generate, funext Collaborators.standard_generateWithin]
  · intro v s o c machine run ho hc
    have hsame (n : Nat) : c.generateWithin n v s o = generateWithin n v s o :=
      hc.generateWithin n v s o s o ⟨rfl, rfl, rfl, ho⟩
    simp only [Collaborators.generate, generate, hsame]

/-- The hooks of the first options replace the scope for a part of the value, which has a slot whose
node generator calls the generator; those of the second show it. The other collaborators give up
wherever the scope is undefined. -/
theorem scope_only_forwarded_into_slots :
    let hooks : Handlers := [("string", .list [.scope (.str "t"), .twice, .regenerate (.int 1)]),
      ("array", .list [.rescue, .handlers [("number", .single (.tag "n"))]])]
    let o := Options.ofSettings { handlers := hooks }
    let o' := Options.ofSettings
      { handlers := [("string", .list [.trace "s", .rescue])], expressions := .telling }
    let c : Collaborators := {
      hook := fun g h v s o next => if s.isUndefined then throw .tooDeep else h.act g v s o next
      expression := fun r v s => if s.isUndefined then throw .tooDeep else Expression.emit r v s
      node := fun g nodes v s => if s.isUndefined then throw .tooDeep else nodes.render g v s }
    let v := Value.list [.str "a",
      .tagged .slot "value" (.list [.str "b", Expression.ofCode (.str "x")])]
    (o.ScopeBlind ∧ (generate v (.str "s") o).perform .standard {} =
      (generate v .undefined o).perform .standard {}) ∧
    (o'.AllHooks (fun h => !h.isScope) ∧ c.AgreesIn (.str "s") ∧
      (c.generate v (.str "s") o').perform .standard {} =
        (generate v (.str "s") o').perform .standard {}) := by
  intro hooks o o' c v
  have hblind : o.ScopeBlind := by
    refine ⟨⟨rfl, ?_⟩, rfl, by simp [o, Options.ofSettings], ?_⟩
    · rintro c ⟨⟩
      rfl
    · rintro c ⟨⟩
      rfl
  have hscope : o'.AllHooks fun h => !h.isScope := by
    refine ⟨rfl, ?_⟩
    rintro c ⟨⟩
    rfl
  have hagrees : c.AgreesIn (.str "s") := ⟨fun _ _ _ _ _ => rfl, fun _ _ => rfl, fun _ _ _ => rfl⟩
  obtain ⟨hforward, -, hcalls⟩ := scope_only_forwarded
  exact ⟨⟨hblind, hforward v (.str "s") .undefined o .standard {} hblind⟩,
    hscope, hagrees, hcalls v (.str "s") o' c .standard {} hscope hagrees⟩

end CompositeScript
