import CompositeScript.Proofs.Run

/-! Hook stacks, and what becomes of them when handlers are merged.

Running a stack is a right fold of its hooks around an emitter (`runHooks_eq_foldr`). A kind is
dispatched through the hooks its options hold under its name, whatever form the stack has
(`dispatch_eq_runHooks`). Two lists of handlers are compared by the hooks they hold under each name;
merging handlers that correspond keeps the comparison (`Handlers.hooks_merge`). `Hook.all` looks
into the handlers that a hook installs, `Hook.occurring` lists what it meets there, and
`Interspersed` compares a stack with one that has more hooks in it. -/

namespace CompositeScript

/-! ## Running -/

theorem runHooks_append (xs ys : List HookAction) (emit : Emitter) :
    runHooks (xs ++ ys) emit = runHooks xs (runHooks ys emit) := by
  induction xs with
  | nil => rfl
  | cons hook xs ih =>
    funext v scope o
    rw [List.cons_append, runHooks, runHooks, ih]

theorem runHooks_eq_foldr (hooks : List HookAction) (emit : Emitter) :
    runHooks hooks emit = hooks.foldr (fun hook next v scope o => hook v scope o next) emit := by
  induction hooks with
  | nil => rfl
  | cons hook hooks ih =>
    funext v scope o
    rw [runHooks, ih, List.foldr_cons]

/-- The emitter from a place of a stack on: the hook at the place is given the emitter from the next
place on, and past the last place only the emitter itself is left. -/
def HookStack.runFrom (stack : HookStack HookAction) (emit : Emitter) (place : Nat) : Emitter :=
  fun v scope o =>
    if h : place < stack.toList.length then
      stack.toList[place] v scope o (stack.runFrom emit (place + 1))
    else emit v scope o
termination_by stack.toList.length - place

theorem HookStack.runFrom_eq (stack : HookStack HookAction) (emit : Emitter) (place : Nat) :
    stack.runFrom emit place = runHooks (stack.toList.drop place) emit := by
  -- the induction is on the number of places that are left
  induction hleft : stack.toList.length - place generalizing place with
  | zero =>
    have hend : stack.toList.length ≤ place := Nat.le_of_sub_eq_zero hleft
    funext v scope o
    rw [runFrom, dif_neg (by omega), List.drop_eq_nil_of_le hend, runHooks]
  | succ n ih =>
    have hplace : place < stack.toList.length := by omega
    funext v scope o
    rw [runFrom, dif_pos hplace, List.drop_eq_getElem_cons hplace, runHooks, ih _ (by omega)]

/-- **Hook stacks compose.** Whatever the hooks do, and however often and with what they go on, to
run one list of hooks behind another is to run the first around the second. So a stack is the right
fold of its hooks around the emitter, the first hook outermost, and running it goes by the places of
one list that all its levels share. A stack without hooks is the emitter, and the form of a stack
does not matter. -/
theorem hook_stacks_compose (xs ys : List HookAction) (emit : Emitter) :
    (HookStack.list (xs ++ ys)).run emit =
      (HookStack.list xs).run (fun v scope o => (HookStack.list ys).run emit v scope o) ∧
    (HookStack.list xs).run emit =
      xs.foldr (fun hook next v scope o => hook v scope o next) emit ∧
    (∀ place, (HookStack.list (xs ++ ys)).runFrom emit (xs.length + place) =
      (HookStack.list ys).runFrom emit place) ∧
    (HookStack.list xs).run emit = (HookStack.list xs).runFrom emit 0 ∧
    HookStack.absent.run emit = emit ∧ (HookStack.list []).run emit = emit ∧
    (HookStack.tuple []).run emit = emit ∧
    (HookStack.tuple xs).run emit = (HookStack.list xs).run emit ∧
    ∀ hook, (HookStack.single hook).run emit = (HookStack.list [hook]).run emit := by
  refine ⟨runHooks_append xs ys emit, runHooks_eq_foldr xs emit, fun place => ?_, ?_, rfl, rfl, rfl,
    rfl, fun hook => rfl⟩
  · rw [HookStack.runFrom_eq, HookStack.runFrom_eq, HookStack.toList, HookStack.toList,
      List.drop_length_add_append]
  · exact (HookStack.runFrom_eq (.list xs) emit 0).symm

/-! ## Lookup -/

/-- The hooks under a name, the outermost first. -/
def Handlers.hooks (handlers : Handlers) (name : Text) : List Hook :=
  (handlers.get? name).elim [] HookStack.toList

theorem Options.hooksFor?_eq_none_iff {o : Options} {name : Text} :
    o.hooksFor? name = none ↔ o.handlers.hooks name = [] := by
  rw [hooksFor?, ← Handlers.hooks]
  cases o.handlers.hooks name <;> simp

theorem dispatch_eq_runHooks (generate : Emitter) (kind : Kind) (v : Value) (scope : Scope)
    (o : Options) :
    kind.dispatch generate v scope o =
      runHooks ((o.handlers.hooks kind.name).map (Hook.act generate)) (kind.emit generate) v scope
        o := by
  unfold Kind.dispatch Options.hooksFor?
  rw [← Handlers.hooks]
  cases o.handlers.hooks kind.name with
  | nil => rfl
  | cons hook hooks => rfl

namespace Handlers

theorem get?_set (handlers : Handlers) (name other : Text) (stack : HookStack Hook) :
    (handlers.set name stack).get? other =
      if name = other then some stack else handlers.get? other := by
  induction handlers with
  | nil => by_cases h : name = other <;> simp [set, get?, h]
  | cons handler handlers ih =>
    obtain ⟨n, s⟩ := handler
    simp only [get?] at ih ⊢
    rw [set]
    by_cases hname : n = name
    · subst hname
      by_cases h : n = other <;> simp [h]
    · rw [if_neg hname, List.find?_cons, List.find?_cons]
      by_cases h : n = other
      · subst h
        simp [Ne.symm hname]
      · simp [h, ih]

theorem hooks_set (handlers : Handlers) (name other : Text) (stack : HookStack Hook) :
    (handlers.set name stack).hooks other =
      if name = other then stack.toList else handlers.hooks other := by
  rw [hooks, get?_set]
  split <;> rfl

/-- The two handlers are of the same name, and `R` holds of their hooks. -/
inductive Alike (R : List Hook → List Hook → Prop) :
    Text × HookStack Hook → Text × HookStack Hook → Prop
  | mk {name : Text} {stack stack' : HookStack Hook} (h : R stack.toList stack'.toList) :
    Alike R (name, stack) (name, stack')

theorem hooks_merge {R : List Hook → List Hook → Prop}
    {handlers handlers' others others' : Handlers}
    (h : ∀ name, R (handlers.hooks name) (handlers'.hooks name))
    (hothers : List.Forall₂ (Alike R) others others') (name : Text) :
    R ((handlers.merge others).hooks name) ((handlers'.merge others').hooks name) := by
  induction hothers generalizing handlers handlers' with
  | nil => exact h name
  | cons hstack _ ih =>
    obtain ⟨hstack⟩ := hstack
    refine ih fun name' => ?_
    rw [hooks_set, hooks_set]
    split
    · exact hstack
    · exact h name'

end Handlers

/-! ## Hooks within hooks -/

mutual

/-- The hook passes the test, and so do the hooks that it installs, at any depth. -/
def Hook.all (p : Hook → Bool) : Hook → Bool
  | .handlers hs => p (.handlers hs) && Handlers.all p hs
  | h => p h

/-- The hooks of the handlers pass the test, at any depth. -/
def Handlers.all (p : Hook → Bool) : Handlers → Bool
  | [] => true
  | (_, stack) :: hs => HookStack.all p stack && Handlers.all p hs

/-- The hooks of the stack pass the test, at any depth. -/
def HookStack.all (p : Hook → Bool) : HookStack Hook → Bool
  | .absent => true
  | .single h => Hook.all p h
  | .list hs => allHooks p hs
  | .tuple hs => allHooks p hs

/-- The hooks pass the test, at any depth. -/
def allHooks (p : Hook → Bool) : List Hook → Bool
  | [] => true
  | h :: hs => Hook.all p h && allHooks p hs

end

mutual

/-- The hook and the hooks that it installs, at any depth. -/
def Hook.occurring : Hook → List Hook
  | .handlers hs => .handlers hs :: Handlers.occurring hs
  | h => [h]

/-- The hooks of the handlers, at any depth. -/
def Handlers.occurring : Handlers → List Hook
  | [] => []
  | (_, stack) :: hs => HookStack.occurring stack ++ Handlers.occurring hs

/-- The hooks of the stack, at any depth. -/
def HookStack.occurring : HookStack Hook → List Hook
  | .absent => []
  | .single h => Hook.occurring h
  | .list hs => occurringHooks hs
  | .tuple hs => occurringHooks hs

/-- The hooks and those that they install, at any depth. -/
def occurringHooks : List Hook → List Hook
  | [] => []
  | h :: hs => Hook.occurring h ++ occurringHooks hs

end

/-- The hook is a rescue. -/
def Hook.isRescue : Hook → Bool
  | .rescue => true
  | _ => false

section
variable {p : Hook → Bool}

theorem allHooks_iff {hooks : List Hook} :
    allHooks p hooks = true ↔ ∀ h ∈ hooks, h.all p = true := by
  induction hooks with
  | nil => simp [allHooks]
  | cons h hooks ih => simp [allHooks, ih]

theorem HookStack.all_iff {stack : HookStack Hook} :
    stack.all p = true ↔ ∀ h ∈ stack.toList, h.all p = true := by
  cases stack <;> simp [all, toList, allHooks_iff]

theorem Handlers.all_iff {handlers : Handlers} :
    handlers.all p = true ↔ ∀ e ∈ handlers, ∀ h ∈ e.2.toList, h.all p = true := by
  induction handlers with
  | nil => simp [all]
  | cons e handlers ih => simp [all, HookStack.all_iff, ih]

mutual

theorem Hook.all_iff_occurring :
    ∀ h : Hook, h.all p = true ↔ ∀ h' ∈ h.occurring, p h' = true
  | .handlers hs => by simp [Hook.all, Hook.occurring, Handlers.all_iff_occurring hs]
  | .pass | .tag _ | .constant _ | .suffix _ | .twice | .value _ | .prepend _ | .scope _
  | .maxDepth _ | .regenerate _ | .again | .rescue | .raise _ | .trace _ => by
    simp [Hook.all, Hook.occurring]

theorem Handlers.all_iff_occurring :
    ∀ handlers : Handlers, handlers.all p = true ↔ ∀ h ∈ handlers.occurring, p h = true
  | [] => by simp [Handlers.all, Handlers.occurring]
  | (_, stack) :: hs => by
    simp only [Handlers.all, Handlers.occurring, Bool.and_eq_true, List.forall_mem_append,
      HookStack.all_iff_occurring stack, Handlers.all_iff_occurring hs]

theorem HookStack.all_iff_occurring :
    ∀ stack : HookStack Hook, stack.all p = true ↔ ∀ h ∈ stack.occurring, p h = true
  | .absent => by simp [HookStack.all, HookStack.occurring]
  | .single h => by simp only [HookStack.all, HookStack.occurring, Hook.all_iff_occurring h]
  | .list hs | .tuple hs => by
    simp only [HookStack.all, HookStack.occurring, allHooks_iff_occurring hs]

theorem allHooks_iff_occurring :
    ∀ hooks : List Hook, allHooks p hooks = true ↔ ∀ h ∈ occurringHooks hooks, p h = true
  | [] => by simp [allHooks, occurringHooks]
  | h :: hs => by
    simp only [allHooks, occurringHooks, Bool.and_eq_true, List.forall_mem_append,
      Hook.all_iff_occurring h, allHooks_iff_occurring hs]

end

theorem Handlers.all_hooks {handlers : Handlers} (h : handlers.all p = true) (name : Text) :
    ∀ hook ∈ handlers.hooks name, hook.all p = true := by
  intro hook hhook
  unfold hooks get? at hhook
  cases hfind : handlers.find? fun e => e.1 = name with
  | none => simp [hfind] at hhook
  | some e =>
    have hmem := List.mem_of_find?_eq_some hfind
    exact all_iff.mp h e hmem hook (by simpa [hfind] using hhook)

theorem Handlers.all_hooks_merge {handlers others : Handlers}
    (h : ∀ name, ∀ hook ∈ handlers.hooks name, hook.all p = true)
    (hothers : others.all p = true) (name : Text) :
    ∀ hook ∈ (handlers.merge others).hooks name, hook.all p = true := by
  let R (hooks hooks' : List Hook) := hooks = hooks' ∧ ∀ hook ∈ hooks, hook.all p = true
  have hlike : List.Forall₂ (Alike R) others others :=
    List.forall₂_same.mpr fun e he => .mk ⟨rfl, all_iff.mp hothers e he⟩
  have hmerge := hooks_merge (R := R) (fun name => ⟨rfl, h name⟩) hlike name
  exact hmerge.2

theorem Handlers.all_set {handlers : Handlers} {stack : HookStack Hook} (name : Text)
    (h : handlers.all p = true) (hstack : stack.all p = true) :
    (handlers.set name stack).all p = true := by
  induction handlers with
  | nil => simp [set, all, hstack]
  | cons e handlers ih =>
    obtain ⟨hhead, htail⟩ : e.2.all p = true ∧ Handlers.all p handlers = true := by
      simpa [all] using h
    rw [set]
    split
    · simp [all, hstack, htail]
    · simp [all, hhead, ih htail]

theorem Handlers.all_merge {handlers others : Handlers} (h : handlers.all p = true)
    (hothers : others.all p = true) : (handlers.merge others).all p = true := by
  induction others generalizing handlers with
  | nil => exact h
  | cons e others ih =>
    obtain ⟨hhead, htail⟩ : e.2.all p = true ∧ Handlers.all p others = true := by
      simpa [all] using hothers
    exact ih (all_set e.1 h hhead) htail

end

/-! ## Stacks with more hooks in them -/

/-- The second list is the first, item by item up to `R`, with any number of `x` in between. -/
inductive Interspersed {η : Type} (R : η → η → Prop) (x : η) : List η → List η → Prop
  | nil : Interspersed R x [] []
  | cons {h h' : η} {hs hs' : List η} :
    R h h' → Interspersed R x hs hs' → Interspersed R x (h :: hs) (h' :: hs')
  | insert {hs hs' : List η} : Interspersed R x hs hs' → Interspersed R x hs (x :: hs')

theorem Interspersed.of_forall {η : Type} {R : η → η → Prop} {x : η} {hs : List η}
    (h : ∀ y ∈ hs, R y y) : Interspersed R x hs hs := by
  induction hs with
  | nil => exact .nil
  | cons y hs ih =>
    obtain ⟨hy, hhs⟩ := List.forall_mem_cons.mp h
    exact .cons hy (ih hhs)

/-- The two hooks are the same, and pass the test at any depth. -/
structure Hook.Passing (p : Hook → Bool) (h h' : Hook) : Prop where
  eq : h' = h
  all : h.all p = true

theorem Hook.Passing.of_handlers {p : Hook → Bool} {hs : Handlers} {h' : Hook}
    (h : Hook.Passing p (.handlers hs) h') : h' = .handlers hs ∧ hs.all p = true := by
  obtain ⟨rfl, hall⟩ := h
  rw [Hook.all] at hall
  exact ⟨rfl, (Bool.and_eq_true_iff.mp hall).2⟩

theorem Interspersed.of_all {p : Hook → Bool} {handlers : Handlers} (h : handlers.all p = true)
    (name : Text) :
    Interspersed (Hook.Passing p) .pass (handlers.hooks name) (handlers.hooks name) :=
  .of_forall fun hook hhook => ⟨rfl, Handlers.all_hooks h name hook hhook⟩

end CompositeScript
