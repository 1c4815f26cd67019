import CompositeScript.Proofs.Scopes

/-! Hooks that are never called.

Hooks are looked up under the names of the kinds that generation dispatches on in a value
(`Value.kinds`). If the options hold none under those names, the run is the one without any hooks,
whatever the other hooks would do. A stack under a name that no emitted kind has is not looked up in
any run: such stacks can be dropped wherever they are registered, in options, by hooks or in the
settings of a node generator (`Options.pruned`). -/

namespace CompositeScript

/-! ## Kinds that do not occur -/

/-- The kinds that generation dispatches on in a value. -/
def Value.kinds (v : Value) : List Kind := v.dispatched.filterMap fun w => w.classify.toOption

/-- The collaborators that the generator has, but for what its hooks do. -/
def Collaborators.withHooks (act : Emitter → Hook → HookAction) : Collaborators :=
  { Collaborators.standard with hook := act }

section
variable {g g' : Emitter} {scope : Scope} {o : Options} {kind : Kind} {hs : Handlers}

theorem slot_congr (hnodes : ∀ c, o.nodes ≠ some (.generate c)) (v : Value) :
    Slot.emit g v scope o = Slot.emit g' v scope { o with handlers := hs } := by
  cases hn : o.nodes with
  | none => simp only [Slot.emit, hn]
  | some nodes =>
    cases nodes with
    | component | telling => simp only [Slot.emit, hn]; rfl
    | generate c => exact (hnodes c hn).elim

theorem i18n_congr {r : Bool} {es : Entries} (htag : (Value.map r es).tag? = some .i18n)
    (h : ∀ child ∈ (Value.map r es).children,
      g child scope o = g' child scope { o with handlers := hs }) :
    Collection.object g (.map r es) scope o =
      Collection.object g' (.map r es) scope { o with handlers := hs } := by
  have hi18n := Value.tag?_eq_some_iff.mp htag
  simp only [Collection.object, Collection.i18n, hi18n, Value.entries?, if_true]
  by_cases hdynamic : Value.isDynamic es = true
  · have hpayload := h (.map false (Collection.payload es))
      (by simp [Value.children, htag, hdynamic])
    rw [Value.isDynamic] at hdynamic
    simp only [hdynamic, if_true, hpayload]
  · rw [Value.isDynamic] at hdynamic
    simp only [hdynamic]
    rfl

theorem object_congr {r : Bool} {es : Entries} (htag : (Value.map r es).tag? = none)
    (h : ∀ e ∈ es, g e.2 scope o = g' e.2 scope { o with handlers := hs }) :
    Collection.object g (.map r es) scope o =
      Collection.object g' (.map r es) scope { o with handlers := hs } := by
  have hi18n : (Value.map r es).hasTag .i18n = false := Value.hasTag_eq_false (by simp [htag])
  have hmembers : es.mapM (Collection.member g scope o) =
      es.mapM (Collection.member g' scope { o with handlers := hs }) :=
    Gen.mapM_congr fun e he => by simp only [Collection.member, h e he]
  simp only [Collection.object, hi18n, Value.entries?, Bool.false_eq_true, if_false, hmembers]

theorem array_congr {v : Value} {xs : List Value} (hv : v.elements? = some xs)
    (h : ∀ x ∈ xs, g x scope o = g' x scope { o with handlers := hs }) :
    Collection.array g v scope o = Collection.array g' v scope { o with handlers := hs } := by
  simp only [Collection.array, hv, Gen.mapM_congr h]

/-- The emitter of a kind calls the generator for the children of a value only, and it reads no
handlers. -/
theorem emit_congr (hnodes : ∀ c, o.nodes ≠ some (.generate c)) {v : Value}
    (hclassify : v.classify = .ok kind)
    (h : ∀ child ∈ v.children, g child scope o = g' child scope { o with handlers := hs }) :
    kind.emit g v scope o = kind.emit g' v scope { o with handlers := hs } := by
  cases v with
  | undefined | null | bool | int | float | str =>
    obtain rfl := Except.ok.inj hclassify
    rfl
  | list xs =>
    obtain rfl := Except.ok.inj hclassify
    exact array_congr (v := .list xs) rfl h
  | tuple xs =>
    obtain rfl := Except.ok.inj hclassify
    exact array_congr (v := .tuple xs) rfl h
  | map r es =>
    have hdefect := Value.defect?_of_classify hclassify
    cases htag : (Value.map r es).tag? with
    | none =>
      obtain rfl : Kind.object = kind :=
        Except.ok.inj ((Value.classify_of_untagged htag).symm.trans hclassify)
      refine object_congr htag fun e he => h e.2 ?_
      simpa [Value.children, htag] using ⟨e.1, he⟩
    | some tag =>
      obtain rfl : tag.kind = kind := by simpa [Value.classify, hdefect, htag] using hclassify
      cases tag with
      | i18n => exact i18n_congr htag h
      | slot => exact slot_congr hnodes _
      | expression | function | dataSource | variableRef => rfl
  | set | bytes | range => cases hclassify

/-- A value is emitted without hooks, whatever the hooks for other kinds would do. -/
theorem route_idle (act : Emitter → Hook → HookAction) {v : Value}
    (hnodes : ∀ c, o.nodes ≠ some (.generate c))
    (hkind : ∀ kind, v.standsFor.classify = .ok kind → o.hooksFor? kind.name = none)
    (h : ∀ child ∈ v.children, g child scope o = g' child scope { o with handlers := [] }) :
    (Collaborators.withHooks act).route g v scope o =
      route g' v scope { o with handlers := [] } := by
  cases hclassify : v.classify with
  | error f => simp only [Collaborators.route, route, hclassify, Gen.ofExcept, Gen.fail_bind]
  | ok kind =>
    obtain ⟨kind', -, hdesugar, hstands, hchildren⟩ := Value.desugar_of_classify hclassify
    have hhooks : o.handlers.hooks kind'.name = [] :=
      Options.hooksFor?_eq_none_iff.mp (hkind kind' hstands)
    have hemit : (Collaborators.withHooks act).emit g kind' = kind'.emit g :=
      Collaborators.standard_emit g kind'
    rw [← hchildren] at h
    rw [route_of_classify hclassify, hdesugar, dispatch_of_hookless fun _ => rfl]
    simp only [Collaborators.route, hclassify, Gen.ofExcept, pure_bind, hdesugar, hhooks,
      List.map_nil, runHooks, hemit]
    exact emit_congr hnodes hstands h

theorem generateWithin_idle (act : Emitter → Hook → HookAction) (n level : Nat) {v : Value}
    (hnodes : ∀ c, o.nodes ≠ some (.generate c))
    (hkinds : ∀ node ∈ v.nodes level, ∀ kind, node.value.standsFor.classify = .ok kind →
      o.hooksFor? kind.name = none) :
    (Collaborators.withHooks act).generateWithin n v scope o =
      generateWithin n v scope { o with handlers := [] } := by
  induction n generalizing v level with
  | zero => rfl
  | succ n ih =>
    rw [Collaborators.generateWithin, generateWithin]
    refine congrArg _ (route_idle act hnodes (hkinds _ (v.mem_nodes_self level)) ?_)
    intro child hchild
    exact ih (level + 1) fun node hnode => hkinds node (Value.mem_nodes_of_child hchild hnode)

theorem generate_idle {v : Value} (scope : Scope) (hnodes : ∀ c, o.nodes ≠ some (.generate c))
    (hkinds : ∀ kind ∈ v.kinds, o.hooksFor? kind.name = none)
    (act : Emitter → Hook → HookAction) :
    (Collaborators.withHooks act).generate v scope o =
      CompositeScript.generate v scope { o with handlers := [] } := by
  have hnode (node) (hmem : node ∈ v.nodes 1) (kind)
      (hclassify : node.value.standsFor.classify = .ok kind) : o.hooksFor? kind.name = none := by
    refine hkinds kind (List.mem_filterMap.mpr ⟨_, List.mem_map_of_mem hmem, ?_⟩)
    rw [hclassify]
    rfl
  simp only [Collaborators.generate, CompositeScript.generate,
    generateWithin_idle act _ 1 hnodes hnode]

end

/-! ## Names that no kind has -/

/-- The name is that of a kind that is emitted. -/
def isHookName (name : Text) : Bool := Kind.emitting.any fun kind => kind.name == name

theorem isHookName_iff {name : Text} :
    isHookName name = true ↔ ∃ kind ∈ Kind.emitting, kind.name = name := by
  simp [isHookName]

mutual

/-- The hook without the stacks under other names that it installs, at any depth. -/
def Hook.pruned : Hook → Hook
  | .handlers hs => .handlers (Handlers.pruned hs)
  | h => h

/-- The handlers without the stacks under other names, at any depth. -/
def Handlers.pruned : Handlers → Handlers
  | [] => []
  | (name, stack) :: hs =>
    if isHookName name then (name, HookStack.pruned stack) :: Handlers.pruned hs
    else Handlers.pruned hs

/-- The stack without the stacks under other names that its hooks install, at any depth. -/
def HookStack.pruned : HookStack Hook → HookStack Hook
  | .absent => .absent
  | .single h => .single (Hook.pruned h)
  | .list hs => .list (prunedHooks hs)
  | .tuple hs => .tuple (prunedHooks hs)

/-- The hooks without the stacks under other names that they install, at any depth. -/
def prunedHooks : List Hook → List Hook
  | [] => []
  | h :: hs => Hook.pruned h :: prunedHooks hs

end

theorem prunedHooks_eq_map (hooks : List Hook) : prunedHooks hooks = hooks.map Hook.pruned := by
  induction hooks with
  | nil => rfl
  | cons h hooks ih => rw [prunedHooks, ih, List.map_cons]

theorem HookStack.toList_pruned (stack : HookStack Hook) :
    stack.pruned.toList = stack.toList.map Hook.pruned := by
  cases stack <;> simp [pruned, toList, prunedHooks_eq_map]

namespace Handlers

/-- The stacks under the names of kinds stay. -/
theorem get?_pruned (handlers : Handlers) {name : Text} (h : isHookName name = true) :
    handlers.pruned.get? name = (handlers.get? name).map HookStack.pruned := by
  induction handlers with
  | nil => rfl
  | cons e handlers ih =>
    obtain ⟨n, stack⟩ := e
    simp only [get?] at ih ⊢
    rw [pruned]
    by_cases hn : n = name
    · subst hn
      simp [h]
    · split <;> simp [hn, ih]

theorem hooks_pruned (handlers : Handlers) {name : Text} (h : isHookName name = true) :
    handlers.pruned.hooks name = (handlers.hooks name).map Hook.pruned := by
  rw [hooks, hooks, get?_pruned handlers h]
  cases handlers.get? name with
  | none => rfl
  | some stack => exact stack.toList_pruned

theorem pruned_set (handlers : Handlers) (name : Text) (stack : HookStack Hook) :
    (handlers.set name stack).pruned =
      if isHookName name then handlers.pruned.set name stack.pruned else handlers.pruned := by
  induction handlers with
  | nil => simp [set, pruned]
  | cons e handlers ih =>
    obtain ⟨n, s⟩ := e
    rw [set]
    by_cases hn : n = name
    · subst hn
      by_cases h : isHookName n <;> simp [pruned, set, h]
    · by_cases h : isHookName name <;> by_cases h' : isHookName n <;> simp_all [pruned, set]

theorem pruned_merge (handlers others : Handlers) :
    (handlers.merge others).pruned = handlers.pruned.merge others.pruned := by
  induction others generalizing handlers with
  | nil => rfl
  | cons e others ih =>
    obtain ⟨name, stack⟩ := e
    have hmerge : handlers.merge ((name, stack) :: others) =
      (handlers.set name stack).merge others := rfl
    rw [hmerge, ih, pruned_set, pruned]
    split <;> rfl

end Handlers

/-- The settings without the stacks under other names. -/
def Settings.pruned (c : Settings) : Settings := { c with handlers := c.handlers.pruned }

/-- The node generator without the stacks under other names in its settings. -/
def NodeGenerator.pruned : NodeGenerator → NodeGenerator
  | .generate c => .generate c.pruned
  | nodes => nodes

/-- The options without the stacks under names that no emitted kind has: their own, those that their
hooks install, and those of their node generator. -/
def Options.pruned (o : Options) : Options :=
  { o.toSettings.pruned with nodes := o.nodes.map NodeGenerator.pruned }

theorem Options.pruned_withHandlers (o : Options) (hs : Handlers) :
    (o.withHandlers hs).pruned = o.pruned.withHandlers hs.pruned := by
  simp only [pruned, withHandlers, Settings.pruned, Handlers.pruned_merge]

theorem slot_pruned {s : Scope} {o : Options} {g g' : Emitter} (v : Value)
    (hg : ∀ v s o, g' v s o.pruned = g v s o) :
    Slot.emit g' v s o.pruned = Slot.emit g v s o := by
  refine sameSteps.slot (R := fun nodes nodes' => nodes' = nodes.pruned) v rfl rfl
    (fun _ => rfl) ?_ ?_
  · rw [Options.pruned]
    cases o.nodes with
    | none => exact .none
    | some nodes => exact .some rfl
  · rintro nodes nodes' rfl node
    cases nodes with
    | component | telling => rfl
    | generate c => exact hg node s (Options.ofSettings c)

theorem Interspersed.map {η : Type} (f : η → η) (x : η) (hs : List η) :
    Interspersed (fun h h' => h' = f h) x hs (hs.map f) := by
  induction hs with
  | nil => exact .nil
  | cons h hs ih => exact .cons rfl ih

/-- A run, and one without the stacks that are not looked up, side by side. -/
def pruning : Simulation where
  toStepRelation := sameSteps
  calls := sameSteps_calls
  Context s o s' o' := s' = s ∧ o' = o.pruned
  Hooks h h' := h' = h.pruned
  nested := by
    rintro s s' o o' x y ⟨-, rfl⟩ rfl
    rfl
  rescue _ h := congrArg Gen.rescued h
  trace := by
    rintro label s s' o o' - ⟨rfl, -⟩
    rfl
  expression := by
    rintro s s' o o' v ⟨rfl, rfl⟩
    rfl
  function := by
    rintro s s' o o' v ⟨-, rfl⟩
    rfl
  slot := by
    rintro s s' o o' g g' v hg ⟨rfl, rfl⟩
    exact slot_pruned v fun v s o => hg v s o s o.pruned ⟨rfl, rfl⟩
  hooks := by
    rintro s s' o o' ⟨name, hname⟩ ⟨-, rfl⟩
    have hhooks : o.pruned.handlers.hooks name = (o.handlers.hooks name).map Hook.pruned :=
      o.handlers.hooks_pruned (isHookName_iff.mpr hname)
    rw [hhooks]
    exact .map Hook.pruned .pass _
  scope _ _ h := ⟨rfl, h.2⟩
  maxDepth := by
    rintro s s' o o' n - ⟨rfl, rfl⟩
    exact ⟨rfl, rfl⟩
  hook_eq := by
    rintro h h' rfl hne
    cases h with
    | handlers hs => exact (hne hs rfl).elim
    | _ => rfl
  handlers := by
    rintro hs h' rfl
    refine ⟨hs.pruned, rfl, ?_⟩
    rintro s s' o o' ⟨rfl, rfl⟩
    exact ⟨rfl, (o.pruned_withHandlers hs).symm⟩

theorem generate_pruned (v : Value) (scope : Scope) (o : Options) :
    generate v scope o.pruned = generate v scope o :=
  pruning.generate v scope o scope o.pruned ⟨rfl, rfl⟩

/-- **Hooks that are not looked up have no effect.** If the options hold no hooks for the kinds that
generation dispatches on in a value, and no node generator that calls the generator, the run is the
one without handlers: the same text or fault, and the same left behind. It is so whatever the hooks
of the options would do, so none of them is called. And in every run, stacks under names that no
emitted kind has, such as those of variables, data sources and `i18n`, can be dropped wherever they
are registered, and one more can be registered. -/
theorem idle_hooks_have_no_effect :
    (∀ (v : Value) (scope : Scope) (o : Options) (machine : Machine) (run : Run),
      (∀ c, o.nodes ≠ some (.generate c)) → (∀ kind ∈ v.kinds, o.hooksFor? kind.name = none) →
      (generate v scope o).perform machine run =
        (generate v scope { o with handlers := [] }).perform machine run ∧
      ∀ act : Emitter → Hook → HookAction,
        ((Collaborators.withHooks act).generate v scope o).perform machine run =
          (generate v scope { o with handlers := [] }).perform machine run) ∧
    (∀ (v : Value) (scope : Scope) (o : Options) (machine : Machine) (run : Run),
      (generate v scope o.pruned).perform machine run = (generate v scope o).perform machine run ∧
      ∀ (name : Text) (stack : HookStack Hook), (∀ kind ∈ Kind.emitting, kind.name ≠ name) →
        (generate v scope (o.withHandlers [(name, stack)])).perform machine run =
          (generate v scope o).perform machine run) ∧
    ∀ name ∈ (["variable", "data_source", "i18n"] : List Text),
      ∀ kind ∈ Kind.emitting, kind.name ≠ name := by
  refine ⟨?_, ?_, ?_⟩
  · intro v scope o machine run hnodes hkinds
    have hidle := generate_idle scope hnodes hkinds
    refine ⟨?_, fun act => by rw [hidle act]⟩
    have hstandard : generate v scope o = (Collaborators.withHooks Hook.act).generate v scope o :=
      (Collaborators.standard_generate v scope o).symm
    rw [hstandard, hidle Hook.act]
  · intro v scope o machine run
    refine ⟨by rw [generate_pruned], fun name stack hname => ?_⟩
    have hunused : isHookName name = false := by
      rw [Bool.eq_false_iff, ne_eq, isHookName_iff]
      rintro ⟨kind, hkind, heq⟩
      exact hname kind hkind heq
    have hpruned : (o.withHandlers [(name, stack)]).pruned = o.pruned := by
      rw [Options.pruned_withHandlers]
      simp [Handlers.pruned, hunused, Options.withHandlers, Handlers.merge]
    rw [← generate_pruned, hpruned, generate_pruned]
  · decide

/-- The hooks that would give up are registered for texts, of which only the code and a member of
tagged maps are one, and for variables, which are dispatched on as expressions. -/
theorem idle_hooks_have_no_effect_on_tagged :
    let ref := Value.tagged .variableRef "variable" (.str "x")
    let code := Value.map false
      [(.str "type", .str "JSExpression"), (.str "value", .str "y"), (.str "note", .str "z")]
    let v := Value.list [ref, code, .int 1]
    let o : Options :=
      { handlers := [("string", .single (.raise "s")), ("variable", .single (.raise "v"))]
        nodes := some .component }
    ((∀ c, o.nodes ≠ some (.generate c)) ∧ (∀ kind ∈ v.kinds, o.hooksFor? kind.name = none) ∧
      (generate v .null o).perform .standard {} = (.ok "[x,y,1]", {})) ∧
    (∀ kind ∈ Kind.emitting, kind.name ≠ "i18n") ∧
      (generate v .null (o.withHandlers [("i18n", .single (.raise "i"))])).perform .standard {} =
        (.ok "[x,y,1]", {}) := by
  intro ref code v o
  have hnodes : ∀ c, o.nodes ≠ some (.generate c) := by simp [o]
  have hkinds : v.kinds = [.array, .expression, .expression, .number] := by
    have hroot : v.children = [ref, code, .int 1] := rfl
    have href : ref.children = [] := rfl
    have hcode : code.children = [] := rfl
    have hone : (Value.int 1).children = [] := rfl
    simp only [Value.kinds, Value.dispatched, Value.nodes_eq, hroot, href, hcode, hone,
      List.flatMap_cons, List.flatMap_nil, List.append_nil, List.cons_append, List.nil_append,
      List.map_cons, List.map_nil]
    rfl
  have hhooks : ∀ kind ∈ v.kinds, o.hooksFor? kind.name = none := by
    rw [hkinds]
    decide
  have hi18n : ∀ kind ∈ Kind.emitting, kind.name ≠ "i18n" := by decide
  obtain ⟨hidle, hunused, -⟩ := idle_hooks_have_no_effect
  have hrun : (generate v .null o).perform .standard {} = (.ok "[x,y,1]", {}) :=
    (hidle v .null o .standard {} hnodes hhooks).1.trans rfl
  exact ⟨⟨hnodes, hhooks, hrun⟩, hi18n,
    ((hunused v .null o .standard {}).2 "i18n" (.single (.raise "i")) hi18n).trans hrun⟩

end CompositeScript
