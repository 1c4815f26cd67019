import CompositeScript.Proofs.Hooks
import CompositeScript.Proofs.Nodes
import CompositeScript.Proofs.Quiet

/-! Two runs of the generator side by side.

A `Congruence` relates the steps of two runs whose scopes and options correspond. What it has to
give are the rules for steps, and what becomes of the options of the two runs at the few places that
read or change them. Everything else is the same for all of them: the emitters and hooks keep
related generators related (`Congruence.route`). In a `Simulation` the relation is kept by a call of
the generator as well, so the generator is related to itself (`Simulation.generate`). -/

namespace CompositeScript

/-- Goes on, and answers the family of a fault of the generator. -/
def Gen.rescued (x : Gen Text) : Gen Text :=
  tryCatch x fun f =>
    match f.family? with
    | some family => return "caught " ++ family.name
    | none => throw f

/-- What becomes of an answer that is rescued. -/
def Gen.recovered : Except Fault Text → Except Fault Text
  | .ok text => .ok text
  | .error f => f.family?.elim (.error f) fun family => .ok ("caught " ++ family.name)

theorem Gen.perform_rescued (x : Gen Text) (machine : Machine) (run : Run) :
    x.rescued.perform machine run =
      (recovered (x.perform machine run).1, (x.perform machine run).2) := by
  simp only [rescued, perform, ReaderT.run, ExceptT.run, StateT.run, tryCatch, tryCatchThe,
    MonadExceptOf.tryCatch, ExceptT.tryCatch, ExceptT.mk, bind, StateT.bind]
  rcases x machine run with ⟨f | text, after⟩
  · simp only [recovered]
    cases f.family? <;> rfl
  · rfl

/-- A relation between the steps of two runs that holds of quiet steps and records, and that bind
keeps. -/
structure StepRelation where
  Step : {α : Type} → Gen α → Gen α → Prop
  quiet : ∀ {α : Type} {x : Gen α}, x.Quiet → Step x x
  record : ∀ r, Step (Gen.record r) (Gen.record r)
  bind : ∀ {α β : Type} {x y : Gen α} {k l : α → Gen β},
    Step x y → (∀ a, Step (k a) (l a)) → Step (x >>= k) (y >>= l)

namespace StepRelation

variable (S : StepRelation)

theorem pure {α : Type} (a : α) : S.Step (pure a : Gen α) (pure a) := S.quiet (.pure a)

theorem fail {α : Type} {f : Fault} (h : f ≠ .noNodeGenerator) :
    S.Step (Gen.fail f : Gen α) (Gen.fail f) := S.quiet (.fail h)

/-- What is done with the answers of two steps that correspond may be anything. -/
theorem map {α β : Type} {x y : Gen α} (h : S.Step x y) (k : α → β) :
    S.Step (x >>= fun a => Pure.pure (k a)) (y >>= fun a => Pure.pure (k a)) :=
  S.bind h fun a => S.pure (k a)

theorem mapM {α β : Type} {f f' : α → Gen β} (as : List α) (h : ∀ a, S.Step (f a) (f' a)) :
    S.Step (as.mapM f) (as.mapM f') := by
  induction as with
  | nil => exact S.pure []
  | cons a as ih =>
    rw [List.mapM_cons, List.mapM_cons]
    exact S.bind (h a) fun b => S.map ih fun bs => b :: bs

/-- Slots correspond if the renderings of their nodes do. -/
theorem emitWith {node node' : Slot.NodeRenderer} {s s' : Scope} (slots : Rendering)
    (hnode : ∀ v, S.Step (node v s) (node' v s')) (v : Value) :
    S.Step (Slot.emitWith slots node v s) (Slot.emitWith slots node' v s') := by
  cases slots with
  | standard =>
    simp only [Slot.emitWith, Slot.render_eq]
    split
    · refine S.bind ?_ fun content => S.quiet (Slot.dress_quiet v content)
      unfold Slot.content
      split
      · exact S.pure _
      · unfold Slot.renderNodes
        split
        · exact S.map (S.mapM _ hnode) _
        · exact hnode _
    · exact S.fail (by simp)
  | telling =>
    simp only [Slot.emitWith]
    split
    · exact S.fail (by simp)
    · exact S.map (hnode _) _

/-- A node generator that does not call the generator renders a node alike in both runs. -/
theorem render {g g' : Emitter} {node : Value} {scope : Scope} (nodes : NodeGenerator)
    (h : ∀ c, nodes = .generate c →
      S.Step (g node scope (.ofSettings c)) (g' node scope (.ofSettings c))) :
    S.Step (nodes.render g node scope) (nodes.render g' node scope) := by
  cases nodes with
  | component =>
    refine S.quiet (.bind (.field node _) fun name => ?_)
    exact .bind (.shown name) fun _ => .pure _
  | telling =>
    refine S.quiet (.bind (.display node) fun _ => ?_)
    exact .bind (.display scope) fun _ => .pure _
  | generate c => exact h c rfl

/-- Slots correspond if their node generators do, and if skipping one corresponds to itself. -/
theorem slot {R : NodeGenerator → NodeGenerator → Prop} {g g' : Emitter} {s s' : Scope}
    {o o' : Options} (v : Value) (hpolicy : o'.policy = o.policy) (hslots : o'.slots = o.slots)
    (hskip : o.nodes = none → S.Step (Slot.emit g v s o) (Slot.emit g v s o))
    (hnodes : Option.Rel R o.nodes o'.nodes)
    (hrender : ∀ nodes nodes', R nodes nodes' → ∀ node,
      S.Step (nodes.render g node s) (nodes'.render g' node s')) :
    S.Step (Slot.emit g v s o) (Slot.emit g' v s' o') := by
  generalize hn : o.nodes = nodes at hnodes hskip
  generalize hn' : o'.nodes = nodes' at hnodes
  cases hnodes with
  | none =>
    have hsame : Slot.emit g' v s' o' = Slot.emit g v s o := by
      simp only [Slot.emit, hn, hn', hpolicy]
    rw [hsame]
    exact hskip rfl
  | some h =>
    simp only [Slot.emit, hn, hn', hslots]
    exact S.emitWith o.slots (hrender _ _ h) v

end StepRelation

/-- A relation between the steps of two runs, and one between their scopes and options, which the
emitters and hooks respect. -/
structure Congruence extends StepRelation where
  /-- The scopes and options of the two runs correspond. -/
  Context : Scope → Options → Scope → Options → Prop
  /-- The two hooks correspond. -/
  Hooks : Hook → Hook → Prop
  rescue : ∀ {x y : Gen Text},
    Hooks .rescue .rescue → Step x y → Step (Gen.rescued x) (Gen.rescued y)
  -- A scope is shown by tracing hooks, expressions and nodes, and by nothing else.
  trace : ∀ {label : Text} {s s' : Scope} {o o' : Options},
    Hooks (.trace label) (.trace label) → Context s o s' o' → Step (Gen.display s) (Gen.display s')
  expression : ∀ {s s' : Scope} {o o' : Options} (v : Value), Context s o s' o' →
    Step (Expression.emit o.expressions v s) (Expression.emit o'.expressions v s')
  function : ∀ {s s' : Scope} {o o' : Options} (v : Value), Context s o s' o' →
    Step (Function.emit o v) (Function.emit o' v)
  slot : ∀ {s s' : Scope} {o o' : Options} {g g' : Emitter} (v : Value),
    (∀ v s o s' o', Context s o s' o' → Step (g v s o) (g' v s' o')) → Context s o s' o' →
    Step (Slot.emit g v s o) (Slot.emit g' v s' o')
  -- Variables and data sources are emitted as expressions, so their names are not looked up.
  hooks : ∀ {s s' : Scope} {o o' : Options} (name : HookName), Context s o s' o' →
    Interspersed Hooks .pass (o.handlers.hooks name) (o'.handlers.hooks name)
  scope : ∀ {s s' : Scope} {o o' : Options} (w : Scope), Hooks (.scope w) (.scope w) →
    Context s o s' o' → Context w o w o'
  maxDepth : ∀ {s s' : Scope} {o o' : Options} (n : Int), Hooks (.maxDepth n) (.maxDepth n) →
    Context s o s' o' → Context s { o with maxDepth := n } s' { o' with maxDepth := n }
  -- Hooks that correspond are equal, but for the handlers that they install.
  hook_eq : ∀ {h h' : Hook}, Hooks h h' → (∀ hs, h ≠ .handlers hs) → h' = h
  handlers : ∀ {hs : Handlers} {h' : Hook}, Hooks (.handlers hs) h' →
    ∃ hs', h' = .handlers hs' ∧ ∀ {s s' : Scope} {o o' : Options}, Context s o s' o' →
      Context s (o.withHandlers hs) s' (o'.withHandlers hs')

namespace Congruence

variable (S : Congruence) {s s' : Scope} {o o' : Options}

/-- The two emitters correspond, wherever their scopes and options do. -/
def Related (g g' : Emitter) : Prop :=
  ∀ v s o s' o', S.Context s o s' o' → S.Step (g v s o) (g' v s' o')

variable {g g' : Emitter}

/-! ## Emitters -/

theorem array (hg : S.Related g g') : S.Related (Collection.array g) (Collection.array g') := by
  intro v s o s' o' ho
  unfold Collection.array
  split
  · exact S.fail (by simp)
  · exact S.map (S.mapM _ fun item => hg item s o s' o' ho) _

theorem i18n (hg : S.Related g g') : S.Related (Collection.i18n g) (Collection.i18n g') := by
  intro v s o s' o' ho
  unfold Collection.i18n
  split
  · exact S.fail (by simp)
  · dsimp only
    split
    · exact S.map (hg _ s o s' o' ho) _
    · exact S.map (S.quiet (Collection.json_quiet _)) _

theorem object (hg : S.Related g g') : S.Related (Collection.object g) (Collection.object g') := by
  intro v s o s' o' ho
  unfold Collection.object
  split
  · exact S.i18n hg v s o s' o' ho
  · split
    · exact S.fail (by simp)
    · refine S.map (S.mapM _ fun e => ?_) _
      exact S.bind (S.quiet (.shown e.1)) fun key => S.map (hg e.2 s o s' o' ho) _

theorem emit (hg : S.Related g g') (kind : Kind) : S.Related (kind.emit g) (kind.emit g') := by
  intro v s o s' o' ho
  cases kind with
  | undefined | null | boolean => exact S.pure _
  | array => exact S.array hg v s o s' o' ho
  | expression | variableRef | dataSource => exact S.expression v ho
  | function => exact S.function v ho
  | slot => exact S.slot v hg ho
  | object => exact S.object hg v s o s' o' ho
  | string => exact S.quiet (.ofExcept (Literal.stringOf_ne_error v))
  | number => exact S.quiet (emitNumber_quiet v)

/-! ## Hooks -/

theorem act {h h' : Hook} {next next' : Emitter} (hh : S.Hooks h h') (hg : S.Related g g')
    (hnext : S.Related next next') (v : Value) (ho : S.Context s o s' o') :
    S.Step (h.act g v s o next) (h'.act g' v s' o' next') := by
  have hv := hnext v s o s' o' ho
  by_cases hhandlers : ∃ hs, h = .handlers hs
  · obtain ⟨hs, rfl⟩ := hhandlers
    obtain ⟨hs', rfl, hcontext⟩ := S.handlers hh
    exact hnext v _ _ _ _ (hcontext ho)
  · obtain rfl := S.hook_eq hh fun hs hhs => hhandlers ⟨hs, hhs⟩
    cases h' with
    | pass => exact hv
    | tag label | suffix text => exact S.map hv _
    | constant text => exact S.pure _
    | twice => exact S.bind hv fun first => S.map hv _
    | value w => exact hnext w s o s' o' ho
    | prepend text =>
      cases v with
      | str t => exact hnext _ s o s' o' ho
      | _ => exact S.fail (by simp)
    | scope other => exact hnext v _ _ _ _ (S.scope other hh ho)
    | maxDepth n => exact hnext v _ _ _ _ (S.maxDepth n hh ho)
    | handlers hs => exact (hhandlers ⟨hs, rfl⟩).elim
    | regenerate w => exact hg w s o s' o' ho
    | again => exact hg v s o s' o' ho
    | rescue => exact S.rescue hh hv
    | raise text => exact S.fail (by simp)
    | trace label =>
      refine S.bind (S.quiet (.display v)) fun value => S.bind (S.trace hh ho) fun shown => ?_
      exact S.bind (S.record _) fun _ => hv

theorem runHooks {hooks hooks' : List Hook} {e e' : Emitter}
    (hhooks : Interspersed S.Hooks .pass hooks hooks') (hg : S.Related g g')
    (he : S.Related e e') :
    S.Related (CompositeScript.runHooks (hooks.map (Hook.act g)) e)
      (CompositeScript.runHooks (hooks'.map (Hook.act g')) e') := by
  induction hhooks with
  | nil => exact he
  | cons hh _ ih => exact fun v s o s' o' ho => S.act hh hg ih v ho
  | insert _ ih => exact ih

theorem route (hg : S.Related g g') :
    S.Related (CompositeScript.route g) (CompositeScript.route g') := by
  intro v s o s' o' ho
  cases hclassify : v.classify with
  | error f =>
    simp only [CompositeScript.route, hclassify, Gen.ofExcept, Gen.fail_bind]
    exact S.fail fun hf => v.classify_ne_error (hf ▸ hclassify)
  | ok kind =>
    obtain ⟨kind', hemits, hdesugar, -⟩ := Value.desugar_of_classify hclassify
    rw [route_of_classify hclassify, route_of_classify hclassify, hdesugar, dispatch_eq_runHooks,
      dispatch_eq_runHooks]
    exact S.runHooks (S.hooks ⟨_, kind', hemits, rfl⟩ ho) hg (S.emit hg kind') _ s o s' o' ho

end Congruence

/-! ## Generation -/

/-- A congruence that a call of the generator keeps, between two runs on the same machine. -/
structure Simulation extends Congruence where
  calls : ∀ {x y : Nat → Gen Text}, (∀ n, Step (x n) (y n)) →
    Step (read >>= fun machine => x machine.calls) (read >>= fun machine => y machine.calls)
  nested : ∀ {s s' : Scope} {o o' : Options} {x y : Gen Text},
    Context s o s' o' → Step x y → Step (Gen.nested o.maxDepth x) (Gen.nested o'.maxDepth y)

namespace Simulation

variable (S : Simulation)

theorem generateWithin (n : Nat) :
    S.Related (CompositeScript.generateWithin n) (CompositeScript.generateWithin n) := by
  induction n with
  | zero => exact fun v s o s' o' _ => S.quiet (.throw (by simp))
  | succ n ih => exact fun v s o s' o' ho => S.nested ho (S.route ih v s o s' o' ho)

theorem generate : S.Related CompositeScript.generate CompositeScript.generate := by
  intro v s o s' o' ho
  exact S.calls fun n => S.generateWithin n v s o s' o' ho

end Simulation

end CompositeScript
