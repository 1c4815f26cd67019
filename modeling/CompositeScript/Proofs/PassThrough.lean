import CompositeScript.Proofs.Simulation

/-! Hooks that only go on.

Options are padded if hooks that pass everything on unchanged are put into their stacks, at any
places: into the stacks of the options themselves, into those that other hooks install, and into
those of a node generator that calls the generator. A stack that was not there may become one with
such hooks only, except where it would hide the stack of an outer level. No run can tell the
difference (`pass_hooks_invisible`). -/

namespace CompositeScript

/-! ## Padded options -/

/-- The two hooks are the same, up to hooks that pass on in the stacks they install. -/
inductive Hook.Padded : Hook → Hook → Prop
  | same (h : Hook) : Padded h h
  | handlers {hs hs' : Handlers} :
    List.Forall₂ (Handlers.Alike (Interspersed Hook.Padded .pass)) hs hs' →
    Padded (.handlers hs) (.handlers hs')

/-- The second settings have more hooks that pass on in their stacks, and are otherwise the same. -/
structure Settings.Padded (c c' : Settings) : Prop where
  hooks (name : Text) :
    Interspersed Hook.Padded .pass (c.handlers.hooks name) (c'.handlers.hooks name)
  rest : c' = { c with handlers := c'.handlers }

/-- The two node generators are the same, up to hooks that pass on in their settings. -/
inductive NodeGenerator.Padded : NodeGenerator → NodeGenerator → Prop
  | same (g : NodeGenerator) : Padded g g
  | generate {c c' : Settings} : c.Padded c' → Padded (.generate c) (.generate c')

/-- The second options have more hooks that pass on in their stacks, and are otherwise the same. -/
structure Options.Padded (o o' : Options) : Prop where
  settings : o.toSettings.Padded o'.toSettings
  nodes : Option.Rel NodeGenerator.Padded o.nodes o'.nodes

theorem Interspersed.padded_refl (hooks : List Hook) :
    Interspersed Hook.Padded .pass hooks hooks :=
  .of_forall fun h _ => .same h

theorem Handlers.padded_refl (hs : Handlers) :
    List.Forall₂ (Alike (Interspersed Hook.Padded .pass)) hs hs :=
  List.forall₂_same.mpr fun e _ => .mk (.padded_refl e.2.toList)

theorem Settings.Padded.refl (c : Settings) : c.Padded c := ⟨fun _ => .padded_refl _, rfl⟩

namespace Options.Padded

variable {o o' : Options}

theorem withMaxDepth (h : o.Padded o') (n : Int) :
    Options.Padded { o with maxDepth := n } { o' with maxDepth := n } := by
  obtain ⟨⟨hhooks, hrest⟩, hnodes⟩ := h
  refine ⟨⟨hhooks, ?_⟩, hnodes⟩
  rw [hrest]

theorem withHandlers (h : o.Padded o') {hs hs' : Handlers}
    (hhs : List.Forall₂ (Handlers.Alike (Interspersed Hook.Padded .pass)) hs hs') :
    (o.withHandlers hs).Padded (o'.withHandlers hs') := by
  obtain ⟨⟨hhooks, hrest⟩, hnodes⟩ := h
  refine ⟨⟨Handlers.hooks_merge hhooks hhs, ?_⟩, hnodes⟩
  simp only [Options.withHandlers]
  rw [hrest]

theorem ofSettings {c c' : Settings} (h : c.Padded c') :
    (Options.ofSettings c).Padded (Options.ofSettings c') :=
  ⟨h, .some (.generate h)⟩

end Options.Padded

/-! ## The two runs -/

/-- Steps that correspond only if they are the same. -/
def sameSteps : StepRelation where
  Step x y := y = x
  quiet _ := rfl
  record _ := rfl
  bind hx hk := by rw [hx, funext hk]

theorem sameSteps_calls {x y : Nat → Gen Text} (h : ∀ n, sameSteps.Step (x n) (y n)) :
    sameSteps.Step (read >>= fun machine => x machine.calls)
      (read >>= fun machine => y machine.calls) := by
  rw [funext h]
  rfl

theorem slot_padded {s : Scope} {o o' : Options} {g g' : Emitter} (v : Value)
    (hg : ∀ v s o o', o.Padded o' → g' v s o' = g v s o) (ho : o.Padded o') :
    Slot.emit g' v s o' = Slot.emit g v s o := by
  obtain ⟨⟨-, hrest⟩, hnodes⟩ := ho
  refine sameSteps.slot v (by rw [hrest]) (by rw [hrest]) (fun _ => rfl) hnodes ?_
  intro nodes nodes' h node
  cases h with
  | same => exact sameSteps.render nodes fun c _ => hg node s _ _ (.ofSettings (.refl c))
  | generate hc => exact hg node s _ _ (.ofSettings hc)

/-- A run, and one with more hooks that pass on, side by side. -/
def padding : Simulation where
  toStepRelation := sameSteps
  calls := sameSteps_calls
  Context s o s' o' := s' = s ∧ o.Padded o'
  Hooks := Hook.Padded
  nested := by
    rintro s s' o o' x y ⟨-, ⟨-, hrest⟩, -⟩ rfl
    exact congrArg (Gen.nested · y) (by rw [hrest])
  rescue _ h := congrArg Gen.rescued h
  trace := by
    rintro label s s' o o' - ⟨rfl, -⟩
    rfl
  expression := by
    rintro s s' o o' v ⟨rfl, ⟨-, hrest⟩, -⟩
    exact congrArg (Expression.emit · v s') (by rw [hrest])
  function := by
    rintro s s' o o' v ⟨-, ⟨-, hrest⟩, -⟩
    have hfinder : o'.nameFinder = o.nameFinder := by rw [hrest]
    have hfunctions : o'.functions = o.functions := by rw [hrest]
    simp only [sameSteps, Function.emit, hfinder, hfunctions]
  slot := by
    rintro s s' o o' g g' v hg ⟨rfl, ho⟩
    exact slot_padded v (fun v s o o' ho => hg v s o s o' ⟨rfl, ho⟩) ho
  hooks name h := h.2.settings.hooks name
  scope _ _ h := ⟨rfl, h.2⟩
  maxDepth n _ h := ⟨h.1, h.2.withMaxDepth n⟩
  hook_eq := by
    rintro h h' (⟨⟩ | _) hne
    · rfl
    · exact (hne _ rfl).elim
  handlers := by
    rintro hs h' (⟨⟩ | hhs)
    · exact ⟨hs, rfl, fun h => ⟨h.1, h.2.withHandlers (Handlers.padded_refl hs)⟩⟩
    · exact ⟨_, rfl, fun h => ⟨h.1, h.2.withHandlers hhs⟩⟩

/-- **Hooks that only go on cannot be seen**, wherever they are put and whatever the other hooks do:
the answer is the same, and so are the warnings, the trace and the number of open calls. -/
theorem pass_hooks_invisible {o o' : Options} (h : o.Padded o') (v : Value) (scope : Scope)
    (machine : Machine) (run : Run) :
    (generate v scope o').perform machine run = (generate v scope o).perform machine run := by
  rw [show generate v scope o' = generate v scope o from
    padding.generate v scope o scope o' ⟨rfl, h⟩]

/-- A single hook becomes a list, a stack inside a hook is padded, and a stack that was not there is
one now. -/
theorem pass_hooks_invisible_nested :
    let o : Options := { handlers :=
      [("array", .single (.handlers [("string", .single .twice)])), ("string", .single .rescue)] }
    let o' : Options := { handlers :=
      [("object", .tuple [.pass]), ("string", .list [.pass, .rescue]),
        ("array", .list [.handlers [("string", .list [.twice, .pass, .pass])], .pass])] }
    let v := Value.list [.str "a", .map false []]
    o.Padded o' ∧
      (generate v .null o').perform .standard {} = (generate v .null o).perform .standard {} := by
  intro o o' v
  have hpadded : o.Padded o' := by
    refine ⟨⟨fun name => ?_, rfl⟩, .none⟩
    by_cases harray : name = "array"
    · subst harray
      refine .cons (.handlers (.cons (.mk ?_) .nil)) (.insert .nil)
      exact .cons (.same .twice) (.insert (.insert .nil))
    by_cases hstring : name = "string"
    · subst hstring
      exact .insert (.cons (.same .rescue) .nil)
    by_cases hobject : name = "object"
    · subst hobject
      exact .insert .nil
    have hnone : o.handlers.hooks name = [] ∧ o'.handlers.hooks name = [] := by
      simp [o, o', Handlers.hooks, Handlers.get?, Ne.symm harray, Ne.symm hstring,
        Ne.symm hobject]
    rw [hnone.1, hnone.2]
    exact .nil
  exact ⟨hpadded, pass_hooks_invisible hpadded v .null .standard {}⟩

end CompositeScript
